/-
  File:      Stowplan/Client/CaptureOrder.lean
  Subject:   DROPPING A SPACE BETWEEN TWO OTHERS (capture-order.ts).

  A dropped space gets an order halfway between its new neighbours, or one beyond the last or the
  first. Orders are taken exactly.

  * `captureReorderOrder`: the order; `siblingsOf`: the siblings as the function sorts them;
  * `Drop`: a drop of one sibling on another, `Drop.dropped`: the spaces after it;
  * `dropped_of_reorder`: those are the spaces `location.reorder` leaves;
  * `others_kept`: the other siblings keep their order among each other;
  * **`drop_lands`**: the source stands where it was dropped exactly when the target and its
    neighbour have different orders, or the source's identifier sorts between theirs.
-/
import Stowplan.Domain.RecordGraph
import Stowplan.Lib.Keyed
import Stowplan.Lib.Stable

namespace Stowplan

open Keyed Stable

/-! ## 1. The order of a dropped space -/

/-- `CaptureDropIntent`: where a dragged space is dropped. -/
inductive CaptureDropIntent where
  | after | before | inside
  deriving DecidableEq

section Definitions

variable [Collation]

/-- `(left.order - right.order || left.id.localeCompare(right.id)) <= 0`. -/
def siblingLe (left right : Location) : Bool :=
  decide (left.order.exact < right.order.exact) ||
    (decide (left.order.exact = right.order.exact) &&
      decide (Collation.localeCompare left.id right.id ≤ 0))

/-- The locations in a parent, sorted. -/
def siblingsOf (locations : List Location) (parentId : Option String) : List Location :=
  (locations.filter fun l => l.parentId = parentId).mergeSort siblingLe

/-- `(a + b) / 2`. -/
def midpoint (a b : JsNumber) : JsNumber := .finite ((a.exact + b.exact) / 2)

/-- `candidates[index + 1]`, or `candidates[index - 1]`. -/
def neighbour (candidates : List Location) (index : Nat) (placeAfter : Bool) : Option Location :=
  if placeAfter then candidates[index + 1]?
  else if index = 0 then none else candidates[index - 1]?

/-- Whether a drop on the target places the source behind it. -/
def placesAfter (siblings : List Location) (sourceId targetId : String)
    (intent : CaptureDropIntent) : Bool :=
  decide (intent = .after) || (decide (intent = .inside) &&
    decide (siblings.findIdx (fun l => l.id = sourceId) <
      siblings.findIdx fun l => l.id = targetId))

/-- `captureReorderOrder(locations, sourceId, targetId, intent)`. -/
def captureReorderOrder (locations : List Location) (sourceId targetId : String)
    (intent : CaptureDropIntent) : Option JsNumber :=
  if sourceId = targetId then none
  else match findKey Location.id sourceId locations, findKey Location.id targetId locations with
    | some source, some target =>
      if source.parentId ≠ target.parentId then none
      else
        let siblings := siblingsOf locations source.parentId
        let placeAfter := placesAfter siblings source.id target.id intent
        let candidates := siblings.filter fun l => l.id ≠ source.id
        let destinationIndex := candidates.findIdx fun l => l.id = target.id
        match neighbour candidates destinationIndex placeAfter with
        | some next =>
          if placeAfter then some (midpoint target.order next.order)
          else some (midpoint next.order target.order)
        | none =>
          some (.finite (if placeAfter then target.order.exact + 1 else target.order.exact - 1))
    | _, _ => none

end Definitions

/-- A drop of one space on another in the same place. -/
structure Drop where
  locations : List Location
  nodup : (locations.map Location.id).Nodup
  finite : ∀ l ∈ locations, l.order.isFinite = true
  source : Location
  target : Location
  source_mem : source ∈ locations
  target_mem : target ∈ locations
  distinct : source.id ≠ target.id
  sibling : source.parentId = target.parentId
  intent : CaptureDropIntent
  timestamp : String

namespace Drop

/-- The place of a space in the list. -/
def rank (d : Drop) (l : Location) : Nat := (d.locations.map Location.id).idxOf l.id

/-- The source with its new order, as `location.reorder` writes it. -/
def reorder (d : Drop) (order : JsNumber) (l : Location) : Location :=
  { l with order, updatedAt := d.timestamp }

/-- The spaces after the drop. -/
def dropped (d : Drop) (order : JsNumber) : List Location :=
  modifyKey Location.id d.source.id (d.reorder order) d.locations

variable [Collation]

/-- The siblings of the source, sorted. -/
def others (d : Drop) : List Location :=
  (siblingsOf d.locations d.source.parentId).filter fun l => l.id ≠ d.source.id

/-- Whether the source goes behind the target. -/
def goesAfter (d : Drop) : Bool :=
  placesAfter (siblingsOf d.locations d.source.parentId) d.source.id d.target.id d.intent

/-- The sibling on the side of the target the source is dropped on. -/
def beside (d : Drop) : Option Location :=
  neighbour d.others (d.others.findIdx fun l => l.id = d.target.id) d.goesAfter

/-- The one identifier sorts before the other; where the collation does not tell them apart, the
    spaces are sorted as they stand in the list. -/
def SortsBefore (d : Drop) (a b : Location) : Prop :=
  Collation.localeCompare a.id b.id < 0 ∨
    Collation.localeCompare a.id b.id = 0 ∧ d.rank a < d.rank b

/-- The source stands where it was dropped: the siblings after the drop are the others, in their
    order, with the source right behind the target or right before it. -/
def Lands (d : Drop) (order : JsNumber) : Prop :=
  ∃ us ws, d.others = us ++ d.target :: ws ∧
    siblingsOf (d.dropped order) d.source.parentId =
      us ++ (if d.goesAfter then [d.target, d.reorder order d.source]
        else [d.reorder order d.source, d.target]) ++ ws

/-- The source's identifier sorts between the target's and that of the sibling beside it. -/
def SortsBetween (d : Drop) (next : Location) : Prop :=
  if d.goesAfter then d.SortsBefore d.target d.source ∧ d.SortsBefore d.source next
  else d.SortsBefore next d.source ∧ d.SortsBefore d.source d.target

end Drop

/-! ## 2. The order of the sort -/

/-- What is known of `localeCompare`: it is a total preorder. -/
class LawfulCollation [Collation] : Prop where
  swap : ∀ a b : String, 0 < Collation.localeCompare a b ↔ Collation.localeCompare b a < 0
  trans : ∀ a b c : String, Collation.localeCompare a b ≤ 0 → Collation.localeCompare b c ≤ 0 →
    Collation.localeCompare a c ≤ 0

section Order

variable [Collation] [LawfulCollation]

omit [LawfulCollation] in
theorem siblingLe_iff {a b : Location} : siblingLe a b = true ↔
    a.order.exact < b.order.exact ∨
      a.order.exact = b.order.exact ∧ Collation.localeCompare a.id b.id ≤ 0 := by
  simp [siblingLe]

theorem siblingLe_trans (a b c : Location) (hab : siblingLe a b = true)
    (hbc : siblingLe b c = true) : siblingLe a c = true := by
  rw [siblingLe_iff] at hab hbc ⊢
  rcases hab with hab | ⟨hab, hab'⟩
  · rcases hbc with hbc | ⟨hbc, _⟩
    · exact .inl (hab.trans hbc)
    · exact .inl (hbc ▸ hab)
  · rcases hbc with hbc | ⟨hbc, hbc'⟩
    · exact .inl (hab ▸ hbc)
    · exact .inr ⟨hab.trans hbc, LawfulCollation.trans _ _ _ hab' hbc'⟩

theorem siblingLe_total (a b : Location) : (siblingLe a b || siblingLe b a) = true := by
  rw [Bool.or_eq_true, siblingLe_iff, siblingLe_iff]
  rcases lt_trichotomy a.order.exact b.order.exact with h | h | h
  · exact .inl (.inl h)
  · by_cases hc : Collation.localeCompare a.id b.id ≤ 0
    · exact .inl (.inr ⟨h, hc⟩)
    · have := (LawfulCollation.swap a.id b.id).mp (by omega)
      exact .inr (.inr ⟨h.symm, by omega⟩)
  · exact .inr (.inl h)

omit [LawfulCollation] in
/-- Spaces of different orders are sorted by them. -/
theorem precedes_of_lt {rank : Location → Nat} {a b : Location}
    (h : a.order.exact < b.order.exact) : Precedes siblingLe rank a b := by
  refine ⟨siblingLe_iff.mpr (.inl h), fun hba => ?_⟩
  rcases siblingLe_iff.mp hba with h' | ⟨h', _⟩
  · exact absurd h' h.asymm
  · exact absurd h' h.ne'

/-- Spaces of one order are sorted by their identifiers. -/
theorem precedes_of_eq {d : Drop} {a b : Location} (h : a.order.exact = b.order.exact) :
    Precedes siblingLe d.rank a b ↔ d.SortsBefore a b := by
  unfold Precedes Drop.SortsBefore
  have hs := LawfulCollation.swap a.id b.id
  have hs' := LawfulCollation.swap b.id a.id
  simp only [siblingLe_iff, h, lt_irrefl, false_or, true_and]
  constructor
  · rintro ⟨hle, hrank⟩
    by_cases hlt : Collation.localeCompare a.id b.id < 0
    · exact .inl hlt
    · exact .inr ⟨by omega, hrank (by omega)⟩
  · rintro (hlt | ⟨he, hr⟩)
    · exact ⟨by omega, fun h => by omega⟩
    · exact ⟨by omega, fun _ => hr⟩

end Order

/-! ## 3. The other siblings -/

section Others

variable (d : Drop) (order : JsNumber)

theorem dropped_eq : d.dropped order =
    d.locations.map fun l => if l.id = d.source.id then d.reorder order l else l := rfl

theorem map_dropped : (d.dropped order).map Location.id = d.locations.map Location.id :=
  map_modifyKey (f := d.reorder order) (fun _ => rfl) _ _

/-- The places of the spaces grow along the list. -/
theorem rank_pairwise {m : List Location} (h : m.map Location.id = d.locations.map Location.id) :
    m.Pairwise fun a b => d.rank a < d.rank b := by
  have hn := d.nodup
  rw [← h] at hn
  have hrank : ∀ i (hi : i < m.length), d.rank m[i] = i := by
    intro i hi
    unfold Drop.rank
    rw [← h]
    have := hn.idxOf_getElem i (by simpa using hi)
    rwa [List.getElem_map] at this
  rw [List.pairwise_iff_getElem]
  intro i j hi hj hij
  rw [hrank i hi, hrank j hj]
  exact hij

variable [Collation] [LawfulCollation]

theorem others_eq : d.others = ((d.locations.filter fun l => l.parentId = d.source.parentId).filter
    fun l => l.id ≠ d.source.id).mergeSort siblingLe :=
  mergeSort_filter siblingLe_trans siblingLe_total ((rank_pairwise d rfl).filter _) _

theorem others_precede : d.others.Pairwise (Precedes siblingLe d.rank) := by
  rw [others_eq]
  exact mergeSort_precedes siblingLe_trans siblingLe_total
    (((rank_pairwise d rfl).filter _).filter _)

theorem dropped_precede : (siblingsOf (d.dropped order) d.source.parentId).Pairwise
    (Precedes siblingLe d.rank) :=
  mergeSort_precedes siblingLe_trans siblingLe_total
    ((rank_pairwise d (map_dropped d order)).filter _)

/-- **The other siblings keep their order among each other.** -/
theorem others_kept : ((siblingsOf (d.dropped order) d.source.parentId).filter fun l =>
    l.id ≠ d.source.id) = d.others := by
  rw [others_eq]
  refine (mergeSort_filter siblingLe_trans siblingLe_total
    ((rank_pairwise d (map_dropped d order)).filter _) _).trans ?_
  congr 1
  rw [dropped_eq, List.filter_filter, List.filter_filter]
  generalize d.locations = m
  induction m with
  | nil => rfl
  | cons l m ih =>
      rw [List.map_cons, List.filter_cons, List.filter_cons, ih]
      by_cases hl : l.id = d.source.id
      · simp [hl, Drop.reorder]
      · simp [hl]

omit [LawfulCollation] in
theorem target_mem_others : d.target ∈ d.others := by
  refine List.mem_filter.mpr ⟨?_, by simpa using d.distinct.symm⟩
  exact (List.mergeSort_perm _ _).symm.subset
    (List.mem_filter.mpr ⟨d.target_mem, by simp [d.sibling]⟩)

/-- The siblings after the drop are the others and the source. -/
theorem dropped_perm : (siblingsOf (d.dropped order) d.source.parentId).Perm
    (d.reorder order d.source :: d.others) := by
  have hsource : d.reorder order d.source ∈ siblingsOf (d.dropped order) d.source.parentId := by
    refine (List.mergeSort_perm _ _).symm.subset (List.mem_filter.mpr ⟨?_, by simp [Drop.reorder]⟩)
    rw [dropped_eq]
    exact List.mem_map.mpr ⟨d.source, d.source_mem, if_pos rfl⟩
  have hn : ((siblingsOf (d.dropped order) d.source.parentId).map Location.id).Nodup := by
    refine ((List.mergeSort_perm _ _).map _).nodup_iff.mpr ?_
    refine ((List.filter_sublist).map _).nodup ?_
    rw [map_dropped]
    exact d.nodup
  have he := List.perm_cons_erase hsource
  refine he.trans (.cons _ (.of_eq ?_))
  rw [← others_kept d order]
  generalize hm : siblingsOf (d.dropped order) d.source.parentId = m at hsource hn
  clear he hm
  induction m with
  | nil => cases hsource
  | cons l m ih =>
      rw [List.map_cons, List.nodup_cons] at hn
      by_cases hl : l = d.reorder order d.source
      · have hrest : ∀ x ∈ m, x.id ≠ d.source.id := by
          rintro x hx he
          exact hn.1 (List.mem_map.mpr ⟨x, hx, by rw [he, hl]; rfl⟩)
        rw [hl, List.erase_cons_head, List.filter_cons_of_neg (by simp [Drop.reorder])]
        exact (List.filter_eq_self.mpr fun x hx => by simpa using hrest x hx).symm
      · have hsource := (List.mem_cons.mp hsource).resolve_left (Ne.symm hl)
        have hne : l.id ≠ d.source.id := by
          intro he
          exact hn.1 (List.mem_map.mpr ⟨_, hsource, he.symm⟩)
        rw [List.erase_cons_tail (by simpa using hl), List.filter_cons_of_pos (by simpa using hne),
          ih hsource hn.2]

end Others

/-! ## 4. Where the source comes to stand -/

section Landing

variable [Collation]

omit [Collation] in
theorem findIdx_middle {us ws : List Location} {t : Location}
    (h : ((us ++ t :: ws).map Location.id).Nodup) :
    (us ++ t :: ws).findIdx (fun l => l.id = t.id) = us.length := by
  induction us with
  | nil => simp [List.findIdx_cons]
  | cons u us ih =>
      rw [List.cons_append, List.map_cons, List.nodup_cons] at h
      have hne : u.id ≠ t.id := fun he => h.1 (he ▸ List.mem_map_of_mem (by simp))
      rw [List.cons_append, List.findIdx_cons, decide_eq_false hne]
      simp [ih h.2]

/-- The sibling beside the target: the next of the others, or the one before. -/
theorem beside_eq (d : Drop) {us ws : List Location} (h : d.others = us ++ d.target :: ws) :
    d.beside = if d.goesAfter then ws.head? else us.getLast? := by
  have hn : (d.others.map Location.id).Nodup := by
    refine ((List.filter_sublist).map _).nodup (((List.mergeSort_perm _ _).map _).nodup_iff.mpr ?_)
    exact ((List.filter_sublist).map _).nodup d.nodup
  unfold Drop.beside neighbour
  rw [h] at hn ⊢
  rw [findIdx_middle hn]
  split
  · rw [List.getElem?_append_right (by omega)]
    cases ws <;> simp
  · rcases List.eq_nil_or_concat us with rfl | ⟨init, last, rfl⟩
    · rfl
    · simp

/-- The order the function gives the source. -/
def Drop.order (d : Drop) : JsNumber :=
  match d.beside with
  | some next =>
    if d.goesAfter then midpoint d.target.order next.order else midpoint next.order d.target.order
  | none => .finite (if d.goesAfter then d.target.order.exact + 1 else d.target.order.exact - 1)

theorem captureReorderOrder_drop (d : Drop) :
    captureReorderOrder d.locations d.source.id d.target.id d.intent = some d.order := by
  unfold captureReorderOrder
  rw [if_neg d.distinct, findKey_of_mem d.nodup d.source_mem, findKey_of_mem d.nodup d.target_mem]
  simp only
  rw [if_neg (not_not.mpr d.sibling)]
  unfold Drop.order Drop.beside Drop.goesAfter Drop.others
  split
  · split <;> rfl
  · rfl

variable [LawfulCollation]

/-- Behind the target: it stands there when it sorts behind the target and before the next. -/
theorem lands_after (d : Drop) (order : JsNumber) {us ws : List Location}
    (h : d.others = us ++ d.target :: ws) :
    siblingsOf (d.dropped order) d.source.parentId =
        us ++ [d.target, d.reorder order d.source] ++ ws ↔
      Precedes siblingLe d.rank d.target (d.reorder order d.source) ∧
        ∀ n ∈ ws.head?, Precedes siblingLe d.rank (d.reorder order d.source) n := by
  have h' : d.others = (us ++ [d.target]) ++ ws := by rw [h, List.append_assoc]; rfl
  have hi := insert_iff siblingLe_trans (h' ▸ dropped_perm d order) (dropped_precede d order)
    (h' ▸ others_precede d)
  rw [List.append_assoc] at hi ⊢
  simpa using hi

theorem lands_before (d : Drop) (order : JsNumber) {us ws : List Location}
    (h : d.others = us ++ d.target :: ws) :
    siblingsOf (d.dropped order) d.source.parentId =
        us ++ [d.reorder order d.source, d.target] ++ ws ↔
      (∀ n ∈ us.getLast?, Precedes siblingLe d.rank n (d.reorder order d.source)) ∧
        Precedes siblingLe d.rank (d.reorder order d.source) d.target := by
  have hi := insert_iff siblingLe_trans (h ▸ dropped_perm d order) (dropped_precede d order)
    (h ▸ others_precede d)
  rw [List.append_assoc]
  simpa using hi

omit [LawfulCollation] in
/-- Neighbours among the others are sorted by their orders. -/
theorem le_of_precedes {rank : Location → Nat} {a b : Location}
    (h : Precedes siblingLe rank a b) : a.order.exact ≤ b.order.exact := by
  rcases siblingLe_iff.mp h.1 with h | ⟨h, _⟩
  · exact h.le
  · exact h.le

/-- A source halfway between two siblings stands between them when their orders differ, and else
    when its identifier sorts between theirs. -/
theorem precedes_midpoint (d : Drop) {a b : Location} (hle : a.order.exact ≤ b.order.exact) :
    Precedes siblingLe d.rank a (d.reorder (midpoint a.order b.order) d.source) ∧
        Precedes siblingLe d.rank (d.reorder (midpoint a.order b.order) d.source) b ↔
      a.order.exact ≠ b.order.exact ∨ d.SortsBefore a d.source ∧ d.SortsBefore d.source b := by
  have ho : (d.reorder (midpoint a.order b.order) d.source).order.exact =
      (a.order.exact + b.order.exact) / 2 := rfl
  by_cases he : a.order.exact = b.order.exact
  · have h1 : a.order.exact = (d.reorder (midpoint a.order b.order) d.source).order.exact := by
      rw [ho]
      linarith
    refine (and_congr (precedes_of_eq h1) (precedes_of_eq (h1.symm.trans he))).trans ?_
    simp only [he, ne_eq, not_true, false_or]
    exact Iff.rfl
  · have hlt : a.order.exact < b.order.exact := lt_of_le_of_ne hle he
    refine iff_of_true ⟨precedes_of_lt ?_, precedes_of_lt ?_⟩ (.inl he)
    · rw [ho]
      linarith
    · rw [ho]
      linarith

/-- Where the source comes to stand, for one split of the others at the target. -/
theorem lands_iff (d : Drop) {us ws : List Location} (h : d.others = us ++ d.target :: ws) :
    siblingsOf (d.dropped d.order) d.source.parentId =
        us ++ (if d.goesAfter then [d.target, d.reorder d.order d.source]
          else [d.reorder d.order d.source, d.target]) ++ ws ↔
      ∀ n, d.beside = some n → n.order.exact ≠ d.target.order.exact ∨ d.SortsBetween n := by
  have hb := beside_eq d h
  have hsorted := others_precede d
  rw [h] at hsorted
  obtain ⟨_, htarget, hus⟩ := List.pairwise_append.mp hsorted
  by_cases hafter : d.goesAfter = true
  · rw [if_pos hafter] at hb ⊢
    rw [lands_after d _ h]
    cases ws with
    | nil =>
      -- nothing behind the target: its order and one more
      have ho : d.order = .finite (d.target.order.exact + 1) := by
        simp [Drop.order, hb, hafter]
      refine iff_of_true ⟨precedes_of_lt ?_, by simp⟩ (by simp [hb])
      rw [ho]
      exact lt_add_one _
    | cons n ws =>
      have ho : d.order = midpoint d.target.order n.order := by
        simp [Drop.order, hb, hafter]
      have hle := le_of_precedes ((List.pairwise_cons.mp htarget).1 n List.mem_cons_self)
      rw [hb, ho]
      simp only [List.head?_cons, Option.mem_def, Option.some.injEq, forall_eq',
        Drop.SortsBetween, hafter, if_true]
      rw [precedes_midpoint d hle, ne_comm]
  · rw [if_neg hafter] at hb ⊢
    rw [lands_before d _ h]
    rcases List.eq_nil_or_concat' us with rfl | ⟨init, n, rfl⟩
    · -- nothing before the target: its order and one less
      have ho : d.order = .finite (d.target.order.exact - 1) := by
        simp [Drop.order, hb, hafter]
      refine iff_of_true ⟨by simp, precedes_of_lt ?_⟩ (by simp [hb])
      rw [ho]
      exact sub_one_lt _
    · have hlast : (init ++ [n]).getLast? = some n := by simp
      rw [hlast] at hb ⊢
      have ho : d.order = midpoint n.order d.target.order := by
        simp [Drop.order, hb, hafter]
      have hle := le_of_precedes (hus n (by simp) d.target List.mem_cons_self)
      rw [hb, ho]
      simp only [Option.mem_def, Option.some.injEq, forall_eq', Drop.SortsBetween, hafter]
      exact precedes_midpoint d hle

/-- **Dropping a space.** For every drop of one space on another in the same place there is an
    order; with it the other siblings stay in their order; and the source stands where it was
    dropped exactly when the sibling beside the target, if there is one, has another order than
    the target, or the source's identifier sorts between theirs. -/
theorem drop_lands (d : Drop) : ∃ order,
    captureReorderOrder d.locations d.source.id d.target.id d.intent = some order ∧
      ((siblingsOf (d.dropped order) d.source.parentId).filter fun l => l.id ≠ d.source.id) =
        d.others ∧
      (d.Lands order ↔ ∀ n, d.beside = some n →
        n.order.exact ≠ d.target.order.exact ∨ d.SortsBetween n) := by
  refine ⟨d.order, captureReorderOrder_drop d, others_kept d d.order, ?_⟩
  constructor
  · rintro ⟨us, ws, hsplit, hlands⟩
    exact (lands_iff d hsplit).mp hlands
  · intro h
    obtain ⟨us, ws, hsplit⟩ := List.append_of_mem (target_mem_others d)
    exact ⟨us, ws, hsplit, (lands_iff d hsplit).mpr h⟩

end Landing

/-! ## 5. The drop as a command -/

/-- `location.reorder` with the order of a drop leaves the spaces of the drop. -/
theorem dropped_of_reorder [Host] (d : Drop) (order : JsNumber) {s : WorkspaceState}
    {env : CommandEnvelope} {r : CommandResult} (hw : WellFormed s)
    (hlocations : s.locations = d.locations) (htime : env.timestamp = d.timestamp)
    (hcommand : env.command = .locationReorder d.source.id order)
    (h : applyCommand s env = .ok r) : r.state.locations = d.dropped order := by
  have hsource : findLocation s d.source.id = some d.source :=
    hw.unique.findLocation (hlocations ▸ d.source_mem)
  obtain ⟨-, ⟨-, hnormal⟩ | ⟨hhistory, -⟩⟩ := applyCommand_ok h
  · obtain ⟨change, t, hchange, hdesc, -, hstate⟩ := applyNormalCommand_ok hw hnormal
    have hreorder : locationReorder s (normalizeCommandEnvelope env) d.source.id order =
        .ok change := by
      unfold normalPatches at hchange
      rw [show (normalizeCommandEnvelope env).command = _ from hcommand] at hchange
      exact hchange
    simp only [locationReorder, result_bind_ok, requireActiveLocation_ok, result_pure_ok] at hreorder
    obtain ⟨l, ⟨hl, -⟩, _, -, _, -, rfl⟩ := hreorder
    obtain rfl := Option.some.inj (hl.symm.trans hsource)
    have hput := describes_location_put hw.unique.records hsource
      [.order order, .updatedAt (normalizeCommandEnvelope env).timestamp]
      (apart_location (by simp [LocationEntry.key]))
    obtain rfl := Except.ok.inj ((applyPatches_of_describes hw.unique hdesc).symm.trans
      (applyPatches_of_describes hw.unique hput))
    rw [hstate]
    show replaceKey Location.id _ s.locations = modifyKey Location.id _ _ d.locations
    rw [← hlocations, modifyKey_eq_replaceKey hw.unique.locations hsource rfl]
    exact congrArg (replaceKey Location.id · s.locations)
      (congrArg (fun time => { d.source with order, updatedAt := time }) htime)
  · rw [hcommand] at hhistory
    cases hhistory

/-! ## 6. Three spaces -/

/-- A space among others. -/
def spaceAt (id : String) (order : JsNumber) : Location where
  archivedAt := none
  captureStatus := .uncounted
  code := id
  conditions := ⟨false, true, true, .normal, .normal⟩
  createdAt := "2024-01-01T00:00:00.000Z"
  description := ""
  dimensions := none
  id := id
  kind := .box
  name := id
  order := order
  parentId := none
  tags := []
  updatedAt := "2024-01-01T00:00:00.000Z"

/-- Three spaces of different orders, the last of which is dropped behind the first. -/
def spreadDrop : Drop where
  locations := [spaceAt "a" 0, spaceAt "b" 1, spaceAt "z" 2]
  nodup := by decide +kernel
  finite := by decide +kernel
  source := spaceAt "z" 2
  target := spaceAt "a" 0
  source_mem := by simp
  target_mem := by simp
  distinct := by decide +kernel
  sibling := rfl
  intent := .after
  timestamp := "2024-01-02T00:00:00.000Z"

/-- Two spaces of the same order, and a third dropped behind the first. -/
def tiedDrop : Drop where
  locations := [spaceAt "a" 0, spaceAt "b" 0, spaceAt "z" 1]
  nodup := by decide +kernel
  finite := by decide +kernel
  source := spaceAt "z" 1
  target := spaceAt "a" 0
  source_mem := by simp
  target_mem := by simp
  distinct := by decide +kernel
  sibling := rfl
  intent := .after
  timestamp := "2024-01-02T00:00:00.000Z"

theorem lawful_plainCollation : @LawfulCollation plainCollation := by
  refine @LawfulCollation.mk plainCollation (fun a b => ?_) (fun a b c => ?_)
  · show 0 < (if a < b then (-1 : Int) else if a = b then 0 else 1) ↔
      (if b < a then (-1 : Int) else if b = a then 0 else 1) < 0
    rcases lt_trichotomy a b with h | h | h
    · simp [h, h.asymm, h.ne']
    · simp [h]
    · simp [h, h.asymm, h.ne']
  · show (if a < b then (-1 : Int) else if a = b then 0 else 1) ≤ 0 →
      (if b < c then (-1 : Int) else if b = c then 0 else 1) ≤ 0 →
      (if a < c then (-1 : Int) else if a = c then 0 else 1) ≤ 0
    have hle : ∀ x y : String, (if x < y then (-1 : Int) else if x = y then 0 else 1) ≤ 0 ↔
        x ≤ y := by
      intro x y
      rcases lt_trichotomy x y with h | h | h
      · simp [h, h.le]
      · simp [h]
      · simp [h.asymm, h.ne', h.not_ge]
    rw [hle, hle, hle]
    exact le_trans

/-- Between equal orders the identifiers decide: dropped behind `a`, the space `z` stands behind
    `b`. -/
theorem drop_misses :
    @captureReorderOrder plainCollation tiedDrop.locations "z" "a" .after = some (.finite 0) ∧
      (@siblingsOf plainCollation (tiedDrop.dropped (.finite 0)) none).map Location.id =
        ["a", "b", "z"] := by
  have hlocs : @siblingsOf plainCollation tiedDrop.locations tiedDrop.source.parentId =
      [spaceAt "a" 0, spaceAt "b" 0, spaceAt "z" 1] :=
    List.mergeSort_of_pairwise (by decide +kernel)
  have hdropped : @siblingsOf plainCollation (tiedDrop.dropped (.finite 0)) none =
      tiedDrop.dropped (.finite 0) :=
    List.mergeSort_of_pairwise (by decide +kernel)
  constructor
  · refine (@captureReorderOrder_drop plainCollation tiedDrop).trans (congrArg some ?_)
    unfold Drop.order Drop.beside Drop.goesAfter Drop.others
    rw [hlocs]
    decide +kernel
  · rw [hdropped]
    decide +kernel

/-- Between different orders there is room: `z` stands behind `a`. -/
theorem drop_lands_spread : ∃ order,
    @captureReorderOrder plainCollation spreadDrop.locations "z" "a" .after = some order ∧
      @Drop.Lands plainCollation spreadDrop order := by
  have hlocs : @siblingsOf plainCollation spreadDrop.locations spreadDrop.source.parentId =
      [spaceAt "a" 0, spaceAt "b" 1, spaceAt "z" 2] :=
    List.mergeSort_of_pairwise (by decide +kernel)
  have hbeside : @Drop.beside plainCollation spreadDrop = some (spaceAt "b" 1) := by
    unfold Drop.beside Drop.goesAfter Drop.others
    rw [hlocs]
    decide +kernel
  obtain ⟨order, horder, -, hlands⟩ :=
    @drop_lands plainCollation lawful_plainCollation spreadDrop
  refine ⟨order, horder, hlands.mpr fun n hn => .inl ?_⟩
  cases hbeside.symm.trans hn
  decide +kernel

end Stowplan
