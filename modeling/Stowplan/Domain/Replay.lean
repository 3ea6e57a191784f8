/-
  File:      Stowplan/Domain/Replay.lean
  Subject:   REPLAYED PATCHES on a state that has moved on.

  A recorded change tells, patch by patch, what one record had and what it got. Read backwards
  it is a change of the same kind, so undoing and reapplying are one thing: the patches of a
  change from `x` to `y` are replayed on some later state `u`.

  * `Changes`, `Changes.turn`: what one patch does to the record it names, and that its reverse
    does the reverse;
  * `Trace`, `trace_of_describes`, `Trail.reverse`: a change as a list of such patches;
  * `trace_of_loop`: what the conflict scan and the writer of a replay make together;
  * `Trail.agree`, `Trail.same`: what the replayed patches name ends as it is in `y`;
  * `Trail.rest`: what they do not name stays as it was.
-/
import Stowplan.Domain.Revision

namespace Stowplan

open Keyed JsValue

/-! ## 1. Kinds of records -/

/-- The timestamps and counters among the fields of an item. -/
def ItemEntry.stamp : ItemEntry → Bool
  | .updatedAt _ | .version _ => true
  | _ => false

/-- The entry of a field that every change sets. -/
def LocationEntry.stamp : LocationEntry → Bool
  | .updatedAt _ => true
  | _ => false

/-- A kind of record that patches name: its typed fields, and where a state has its records. -/
class RecordKind (ε : Type) (α : outParam Type) [Entity α] [FieldEntry ε α] where
  kind : PatchTarget
  records : WorkspaceState → List α
  /-- the entry is bookkeeping of the engine -/
  stamp : ε → Bool
  here_here : ∀ (e : ε) (a b : α),
    FieldEntry.here (FieldEntry.here e a) b = FieldEntry.here e b
  here_put_congr : ∀ (e e' : ε) (a b : α), FieldEntry.here e a = FieldEntry.here e b →
    FieldEntry.here e (FieldEntry.put e' a) = FieldEntry.here e (FieldEntry.put e' b)
  here_put_stamp : ∀ (e e' : ε) (a : α), stamp e = true → stamp e' = false →
    FieldEntry.here e' (FieldEntry.put e a) = FieldEntry.here e' a
  put_stamp : ∀ (e e' : ε) (a : α), stamp e = true → stamp e' = false →
    FieldEntry.put e' (FieldEntry.put e a) = FieldEntry.put e (FieldEntry.put e' a)
  bookkeeping : ∀ (e : ε) (p : FieldPatch), p.target = kind → p.path = FieldEntry.key e →
    isActivityBookkeepingPatch p = stamp e
  read : ∀ (s : WorkspaceState) (id path : String), readPatchValue s kind id path =
    readPath (((findKey idOf id (records s)).map encode).getD .undefined) path
  apply : ∀ (s : WorkspaceState) (p : FieldPatch) (l : List α), p.target = kind →
    patchCollection (records s) p = .ok l →
    ∃ t, applyFieldPatch s p = .ok t ∧ records t = l
  apply_other : ∀ (s t : WorkspaceState) (p : FieldPatch), p.target ≠ kind →
    applyFieldPatch s p = .ok t → records t = records s
  nodup : ∀ s : WorkspaceState, Unique s → ((records s).map idOf).Nodup

theorem ConstraintEntry.here_put_congr (e e' : ConstraintEntry) {a b : ItemConstraints}
    (h : e.here a = e.here b) : e.here (e'.put a) = e.here (e'.put b) := by
  cases e <;> cases e' <;> first | exact h | rfl

theorem ItemEntry.here_put_congr (e e' : ItemEntry) {a b : ItemRecord}
    (h : e.here a = e.here b) : e.here (e'.put a) = e.here (e'.put b) := by
  cases e with
  | constraints v =>
      have hc : a.constraints = b.constraints := ItemEntry.constraints.inj h
      cases e' with
      | constraint c => exact congrArg ItemEntry.constraints (congrArg c.put hc)
      | constraints w => rfl
      | _ => exact h
  | constraint c =>
      have hc : c.here a.constraints = c.here b.constraints := ItemEntry.constraint.inj h
      cases e' with
      | constraint c' => exact congrArg ItemEntry.constraint (c.here_put_congr c' hc)
      | constraints w => rfl
      | _ => exact h
  | _ => cases e' <;> first | exact h | rfl

instance : RecordKind ItemEntry ItemRecord where
  kind := .item
  records := WorkspaceState.items
  stamp := ItemEntry.stamp
  here_here e a b := by
    cases e with
    | constraint e => cases e <;> rfl
    | _ => rfl
  here_put_congr e e' a b h := e.here_put_congr e' h
  here_put_stamp e e' a h h' := by
    cases e with
    | updatedAt v => cases e' <;> first | rfl | cases h'
    | version v => cases e' <;> first | rfl | cases h'
    | _ => cases h
  put_stamp e e' a h h' := by
    cases e with
    | updatedAt v => cases e' <;> first | rfl | cases h'
    | version v => cases e' <;> first | rfl | cases h'
    | _ => cases h
  bookkeeping e p ht hp := by
    unfold isActivityBookkeepingPatch
    rw [hp, if_neg (FieldEntry.key_ne_empty (α := ItemRecord) e), ht]
    cases e with
    | constraint c => cases c <;> rfl
    | _ => rfl
  read s id path := rfl
  apply s p l ht hl := by
    refine ⟨{ s with items := l }, ?_, rfl⟩
    unfold applyFieldPatch
    rw [ht]
    simp only [hl]
    rfl
  apply_other s t p ht h := by
    unfold applyFieldPatch at h
    split at h <;> simp only [result_bind_ok, result_pure_ok] at h
    · obtain ⟨_, -, rfl⟩ := h
      rfl
    · rename_i hi
      exact absurd hi ht
    · obtain ⟨_, -, rfl⟩ := h
      rfl
    · obtain ⟨_, -, rfl⟩ := h
      rfl
  nodup s hu := hu.items

instance : RecordKind LocationEntry Location where
  kind := .location
  records := WorkspaceState.locations
  stamp := LocationEntry.stamp
  here_here e a b := by cases e <;> rfl
  here_put_congr e e' a b h := by
    cases e <;> cases e' <;> first | exact h | rfl
  here_put_stamp e e' a h h' := by
    cases e with
    | updatedAt v => cases e' <;> first | rfl | cases h'
    | _ => cases h
  put_stamp e e' a h h' := by
    cases e with
    | updatedAt v => cases e' <;> first | rfl | cases h'
    | _ => cases h
  bookkeeping e p ht hp := by
    unfold isActivityBookkeepingPatch
    rw [hp, if_neg (FieldEntry.key_ne_empty (α := Location) e), ht]
    cases e <;> rfl
  read s id path := rfl
  apply s p l ht hl := by
    refine ⟨{ s with locations := l }, ?_, rfl⟩
    unfold applyFieldPatch
    rw [ht]
    simp only [hl]
    rfl
  apply_other s t p ht h := by
    unfold applyFieldPatch at h
    split at h <;> simp only [result_bind_ok, result_pure_ok] at h
    · obtain ⟨_, -, rfl⟩ := h
      rfl
    · obtain ⟨_, -, rfl⟩ := h
      rfl
    · rename_i hl
      exact absurd hl ht
    · obtain ⟨_, -, rfl⟩ := h
      rfl
  nodup s hu := hu.locations

instance : RecordKind PlanEntry MovePlan where
  kind := .plan
  records := WorkspaceState.plans
  stamp _ := false
  here_here e a b := by cases e <;> rfl
  here_put_congr e e' a b h := by
    cases e <;> cases e' <;> first | exact h | rfl
  here_put_stamp e e' a h h' := by cases h
  put_stamp e e' a h h' := by cases h
  bookkeeping e p ht hp := by
    unfold isActivityBookkeepingPatch
    rw [hp, if_neg (FieldEntry.key_ne_empty (α := MovePlan) e), ht]
  read s id path := rfl
  apply s p l ht hl := by
    refine ⟨{ s with plans := l }, ?_, rfl⟩
    unfold applyFieldPatch
    rw [ht]
    simp only [hl]
    rfl
  apply_other s t p ht h := by
    unfold applyFieldPatch at h
    split at h <;> simp only [result_bind_ok, result_pure_ok] at h
    · obtain ⟨_, -, rfl⟩ := h
      rfl
    · obtain ⟨_, -, rfl⟩ := h
      rfl
    · obtain ⟨_, -, rfl⟩ := h
      rfl
    · rename_i hp
      exact absurd hp ht
  nodup s hu := hu.plans

/-! ## 2. What a patch does to a record -/

section Records

variable {ε α : Type} [Entity α] [FieldEntry ε α]

omit [FieldEntry ε α] in
theorem encode_ne_undefined (a : α) : encode a ≠ .undefined := by
  intro h
  have hget := Entity.get_id a
  rw [h] at hget
  cases hget

/-- Entries with one key read the same. -/
theorem value_here_of_key {e e' : ε} (hk : FieldEntry.key e = FieldEntry.key e') (a : α) :
    FieldEntry.value (FieldEntry.here e a) = FieldEntry.value (FieldEntry.here e' a) := by
  refine Except.ok.inj ((FieldEntry.read e a).symm.trans ?_)
  rw [hk]
  exact FieldEntry.read e' a

/-- Entries with one key and one value write the same. -/
theorem put_of_key {e e' : ε} (hk : FieldEntry.key e = FieldEntry.key e')
    (hv : FieldEntry.value e = FieldEntry.value e') (a : α) :
    FieldEntry.put e a = FieldEntry.put e' a := by
  have hw := FieldEntry.write e a
  rw [hk, hv, FieldEntry.write e' a] at hw
  exact (encode_injective (Except.ok.inj hw)).symm

variable (ε) in
/-- The patch tells what a record was before and is after. -/
inductive Changes (p : FieldPatch) : Option α → Option α → Prop where
  | field (new : ε) (a : α) (hp : p.path = FieldEntry.key new)
      (hb : p.before = FieldEntry.value (FieldEntry.here new a))
      (ha : p.after = FieldEntry.value new) : Changes p (some a) (some (FieldEntry.put new a))
  | add (a : α) (hp : p.path = "") (hid : idOf a = p.id) (hb : p.before = .undefined)
      (ha : p.after = encode a) : Changes p none (some a)
  | drop (a : α) (hp : p.path = "") (hid : idOf a = p.id) (hb : p.before = encode a)
      (ha : p.after = .undefined) : Changes p (some a) none

variable [RecordKind ε α]

/-- The record with the identifier. -/
def found (ε : Type) {α : Type} [Entity α] [FieldEntry ε α] [RecordKind ε α]
    (s : WorkspaceState) (id : String) : Option α :=
  findKey idOf id (RecordKind.records ε s)

/-- The value of a field, if there is a record. -/
def look (e : ε) (x : Option α) : Option JsValue :=
  x.map fun a => FieldEntry.value (FieldEntry.here e a)

variable {p : FieldPatch} {x y u v : Option α}

/-- Fields that show the same value are the same. -/
theorem here_of_value {e : ε} {a b : α}
    (h : FieldEntry.value (FieldEntry.here e a) = FieldEntry.value (FieldEntry.here e b)) :
    FieldEntry.here e a = FieldEntry.here e b := by
  have hself : equal (FieldEntry.value (FieldEntry.here (FieldEntry.here e b) a))
      (FieldEntry.value (FieldEntry.here e b)) = true := by
    rw [value_here_of_key (FieldEntry.key_here e b), h]
    exact equal_self _ (FieldEntry.proper_value _)
  rw [← RecordKind.here_here e b a]
  exact FieldEntry.eq_of_equal _ a hself

/-- **A patch read backwards does the reverse.** -/
theorem Changes.turn (h : Changes ε p x y) : Changes ε (reversePatch p) y x := by
  cases h with
  | field new a hp hb ha =>
      have hput := FieldEntry.put_here new a
      have := Changes.field (p := reversePatch p) (FieldEntry.here new a) (FieldEntry.put new a)
        (hp.trans (FieldEntry.key_here new a).symm)
        (by
          show p.after = _
          rw [ha, RecordKind.here_here, FieldEntry.here_put])
        hb
      rwa [hput] at this
  | add a hp hid hb ha => exact .drop a hp hid ha hb
  | drop a hp hid hb ha => exact .add a hp hid ha hb

omit [RecordKind ε α] in
/-- Whole records are set to what the patch says. -/
theorem Changes.whole (h : Changes ε p x y) (h' : Changes ε p u v) (hp : p.path = "") :
    y = v := by
  cases h with
  | field new a hk _ _ => exact absurd (hk.symm.trans hp) (FieldEntry.key_ne_empty (α := α) new)
  | add a _ _ _ ha =>
      cases h' with
      | field new b hk _ _ =>
          exact absurd (hk.symm.trans hp) (FieldEntry.key_ne_empty (α := α) new)
      | add b _ _ _ hb =>
          rw [encode_injective (ha.symm.trans hb)]
      | drop b _ _ _ hb => exact absurd (ha.symm.trans hb) (encode_ne_undefined a)
  | drop a _ _ _ ha =>
      cases h' with
      | field new b hk _ _ =>
          exact absurd (hk.symm.trans hp) (FieldEntry.key_ne_empty (α := α) new)
      | add b _ _ _ hb => exact absurd (hb.symm.trans ha) (encode_ne_undefined b)
      | drop b _ _ _ _ => rfl

omit [RecordKind ε α] in
/-- The field a patch names reads the same after it, wherever it was applied. -/
theorem Changes.named (h : Changes ε p x y) (h' : Changes ε p u v) {e : ε}
    (he : FieldEntry.key e = p.path) : look e y = look e v := by
  have hne : p.path ≠ "" := fun hp =>
    FieldEntry.key_ne_empty (α := α) e (he.trans hp)
  cases h with
  | field new a hk _ ha =>
      cases h' with
      | field new' b hk' _ hb =>
          show some (FieldEntry.value (FieldEntry.here e (FieldEntry.put new a))) =
            some (FieldEntry.value (FieldEntry.here e (FieldEntry.put new' b)))
          rw [value_here_of_key (he.trans hk), value_here_of_key (he.trans hk'),
            FieldEntry.here_put, FieldEntry.here_put, ← ha, ← hb]
      | add b hp _ _ _ => exact absurd hp hne
      | drop b hp _ _ _ => exact absurd hp hne
  | add a hp _ _ _ => exact absurd hp hne
  | drop a hp _ _ _ => exact absurd hp hne

/-- What reads the same before a patch reads the same after it. -/
theorem Changes.look (h : Changes ε p x y) (h' : Changes ε p u v) {e : ε}
    (he : look e x = look e u) : Stowplan.look e y = Stowplan.look e v := by
  by_cases hp : p.path = ""
  · rw [h.whole h' hp]
  · cases h with
    | field new a hk _ ha =>
        cases h' with
        | field new' b hk' _ hb =>
            have hv : FieldEntry.value (FieldEntry.here e a) =
                FieldEntry.value (FieldEntry.here e b) := Option.some.inj he
            show some (FieldEntry.value (FieldEntry.here e (FieldEntry.put new a))) =
              some (FieldEntry.value (FieldEntry.here e (FieldEntry.put new' b)))
            have hh := here_of_value hv
            rw [put_of_key (hk'.symm.trans hk) (hb.symm.trans ha),
              RecordKind.here_put_congr e new a b hh]
        | add b hp' _ _ _ => exact absurd hp' hp
        | drop b hp' _ _ _ => exact absurd hp' hp
    | add a hp' _ _ _ => exact absurd hp' hp
    | drop a hp' _ _ _ => exact absurd hp' hp

end Records

/-! ## 3. What a patch does to a state -/

/-- The patch tells what the records of one kind were before and are after. -/
structure ChangesKind (ε : Type) {α : Type} [Entity α] [FieldEntry ε α] [RecordKind ε α]
    (p : FieldPatch) (s t : WorkspaceState) : Prop where
  here : p.target = RecordKind.kind ε → Changes ε p (found ε s p.id) (found ε t p.id)
  other : ∀ id, (p.target = RecordKind.kind ε → id ≠ p.id) → found ε t id = found ε s id

/-- The patch tells what the name of the workspace was and is. -/
structure ChangesName (p : FieldPatch) (s t : WorkspaceState) : Prop where
  here : p.target = .workspace → p.path = "name" ∧ p.id = s.workspace.id ∧
    p.before = encode s.workspace.name ∧ p.after = encode t.workspace.name
  other : p.target ≠ .workspace → t.workspace.name = s.workspace.name
  id : t.workspace.id = s.workspace.id

/-- The patch tells the difference of two states. -/
structure ChangesState (p : FieldPatch) (s t : WorkspaceState) : Prop where
  items : ChangesKind ItemEntry p s t
  locations : ChangesKind LocationEntry p s t
  plans : ChangesKind PlanEntry p s t
  name : ChangesName p s t

/-- One patch after another takes a state to another, each as `R` says. -/
inductive Trail (R : FieldPatch → WorkspaceState → WorkspaceState → Prop) :
    WorkspaceState → List FieldPatch → WorkspaceState → Prop where
  | nil (s : WorkspaceState) : Trail R s [] s
  | cons {s t u : WorkspaceState} {p : FieldPatch} {ps : List FieldPatch} (h : R p s t)
      (rest : Trail R t ps u) : Trail R s (p :: ps) u

/-- The patches tell the way from one state to another. -/
abbrev Trace := Trail ChangesState

section Trails

variable {R Q : FieldPatch → WorkspaceState → WorkspaceState → Prop} {s t u : WorkspaceState}

/-- Trails follow one another. -/
theorem Trail.append {ps qs : List FieldPatch} (h : Trail R s ps t) (h' : Trail R t qs u) :
    Trail R s (ps ++ qs) u := by
  induction h with
  | nil => exact h'
  | cons hp _ ih => exact .cons hp (ih h')

/-- A trail of one kind is one of a weaker kind. -/
theorem Trail.imp (hR : ∀ p s t, R p s t → Q p s t) {ps : List FieldPatch}
    (h : Trail R s ps t) : Trail Q s ps t := by
  induction h with
  | nil s => exact .nil s
  | cons hp _ ih => exact .cons (hR _ _ _ hp) ih

/-- The first patch is taken back last. -/
theorem reversePatches_cons (p : FieldPatch) (ps : List FieldPatch) :
    reversePatches (p :: ps) = reversePatches ps ++ [reversePatch p] := by
  unfold reversePatches
  rw [List.reverse_cons, List.map_append]
  rfl

/-- **A trail read backwards is a trail**, when each of its patches can be read backwards. -/
theorem Trail.reverse (hR : ∀ p s t, R p s t → R (reversePatch p) t s) {ps : List FieldPatch}
    (h : Trail R s ps t) : Trail R t (reversePatches ps) s := by
  induction h with
  | nil s => exact .nil s
  | cons hp _ ih =>
      rw [reversePatches_cons]
      exact ih.append (.cons (hR _ _ _ hp) (.nil _))

end Trails

section Kinds

variable {ε α : Type} [Entity α] [FieldEntry ε α] [RecordKind ε α]
variable {p : FieldPatch} {s t : WorkspaceState}

/-- A change of a record the other way round. -/
theorem ChangesKind.turn (h : ChangesKind ε p s t) : ChangesKind ε (reversePatch p) t s where
  here hk := (h.here hk).turn
  other id hid := (h.other id hid).symm

theorem ChangesName.turn (h : ChangesName p s t) : ChangesName (reversePatch p) t s where
  here hk := by
    obtain ⟨hp, hid, hb, ha⟩ := h.here hk
    exact ⟨hp, hid.trans h.id.symm, ha, hb⟩
  other hk := (h.other hk).symm
  id := h.id.symm

/-- A change of the state the other way round. -/
theorem ChangesState.turn (h : ChangesState p s t) : ChangesState (reversePatch p) t s :=
  ⟨h.items.turn, h.locations.turn, h.plans.turn, h.name.turn⟩

/-- A patch of another kind. -/
theorem changesKind_away (hk : p.target ≠ RecordKind.kind ε)
    (hr : RecordKind.records ε t = RecordKind.records ε s) : ChangesKind ε p s t where
  here h := absurd h hk
  other id _ := by
    unfold found
    rw [hr]

/-- A patch of another kind changes no record of this one. -/
theorem changesKind_other {kind : PatchTarget} {id path : String} {before after : JsValue}
    (hk : kind ≠ RecordKind.kind ε) (hr : RecordKind.records ε t = RecordKind.records ε s) :
    ChangesKind ε (patch kind id path before after) s t :=
  changesKind_away hk hr

/-- The records with a field of one of them set. -/
theorem changesKind_field {a : α} (e : ε) (h : found ε s (idOf a) = some a)
    (hr : RecordKind.records ε t =
      modifyKey idOf (idOf a) (FieldEntry.put e) (RecordKind.records ε s)) :
    ChangesKind ε (patch (RecordKind.kind ε) (idOf a) (FieldEntry.key e)
      (FieldEntry.value (FieldEntry.here e a)) (FieldEntry.value e)) s t := by
  have hput : ∀ b : α, idOf (FieldEntry.put e b) = idOf b := FieldEntry.idOf_put e
  have hfound : ∀ id, found ε t id =
      if id = idOf a then (found ε s id).map (FieldEntry.put e) else found ε s id := by
    intro id
    show findKey idOf id (RecordKind.records ε t) = _
    rw [hr, findKey_modifyKey hput]
    rfl
  refine ⟨fun _ => ?_, fun id hid => ?_⟩
  · show Changes ε _ (found ε s (idOf a)) (found ε t (idOf a))
    rw [hfound, if_pos rfl, h]
    exact .field e a rfl rfl rfl
  · have hne : id ≠ idOf a := hid rfl
    rw [hfound, if_neg hne]

theorem changesKind_add {a : α} (h : found ε s (idOf a) = none)
    (hr : RecordKind.records ε t = RecordKind.records ε s ++ [a]) :
    ChangesKind ε (patch (RecordKind.kind ε) (idOf a) "" .undefined (encode a)) s t := by
  have hfound : ∀ id, found ε t id = (found ε s id).or (if idOf a = id then some a else none) := by
    intro id
    show findKey idOf id (RecordKind.records ε t) = _
    rw [hr, findKey_append, findKey_cons]
    rfl
  refine ⟨fun _ => ?_, fun id hid => ?_⟩
  · show Changes ε _ (found ε s (idOf a)) (found ε t (idOf a))
    rw [hfound, if_pos rfl, h]
    exact .add a rfl rfl rfl rfl
  · have hne : id ≠ idOf a := hid rfl
    rw [hfound, if_neg (Ne.symm hne), Option.or_none]

theorem changesKind_drop {a : α} (h : found ε s (idOf a) = some a)
    (hr : RecordKind.records ε t = (RecordKind.records ε s).filter fun b => idOf b ≠ idOf a) :
    ChangesKind ε (patch (RecordKind.kind ε) (idOf a) "" (encode a) .undefined) s t := by
  have hfound : ∀ id, found ε t id = if id = idOf a then none else found ε s id := by
    intro id
    show findKey idOf id (RecordKind.records ε t) = _
    rw [hr]
    have := findKey_filter (idOf (α := α)) (fun k => decide (k ≠ idOf a)) id
      (RecordKind.records ε s)
    rw [this]
    by_cases hid : id = idOf a <;> simp [hid, found]
  refine ⟨fun _ => ?_, fun id hid => ?_⟩
  · show Changes ε _ (found ε s (idOf a)) (found ε t (idOf a))
    rw [hfound, if_pos rfl, h]
    exact .drop a rfl rfl rfl rfl
  · have hne : id ≠ idOf a := hid rfl
    rw [hfound, if_neg hne]

end Kinds

/-- **An edit is the change its patch tells.** -/
theorem changesState_of_edited {s t : WorkspaceState} {p : FieldPatch} (h : Edited s p t) :
    ChangesState p s t := by
  have hname : ∀ {kind : PatchTarget} {id path : String} {before after : JsValue}
      {v : WorkspaceState}, kind ≠ .workspace → v.workspace = s.workspace →
      ChangesName (patch kind id path before after) s v := by
    intro kind id path before after v hk hv
    exact ⟨fun hw => absurd hw hk, fun _ => by rw [hv], by rw [hv]⟩
  cases h with
  | item e h =>
      exact ⟨changesKind_field e h rfl, changesKind_other (by decide) rfl,
        changesKind_other (by decide) rfl, hname (by decide) rfl⟩
  | location e h =>
      exact ⟨changesKind_other (by decide) rfl, changesKind_field e h rfl,
        changesKind_other (by decide) rfl, hname (by decide) rfl⟩
  | plan e h =>
      exact ⟨changesKind_other (by decide) rfl, changesKind_other (by decide) rfl,
        changesKind_field e h rfl, hname (by decide) rfl⟩
  | rename name =>
      exact ⟨changesKind_other (by decide) rfl, changesKind_other (by decide) rfl,
        changesKind_other (by decide) rfl, fun _ => ⟨rfl, rfl, rfl, rfl⟩, fun h => absurd rfl h,
        rfl⟩
  | addItem i h =>
      exact ⟨changesKind_add (ε := ItemEntry) h rfl, changesKind_other (by decide) rfl,
        changesKind_other (by decide) rfl, hname (by decide) rfl⟩
  | addLocation l h =>
      exact ⟨changesKind_other (by decide) rfl, changesKind_add (ε := LocationEntry) h rfl,
        changesKind_other (by decide) rfl, hname (by decide) rfl⟩
  | addPlan p h =>
      exact ⟨changesKind_other (by decide) rfl, changesKind_other (by decide) rfl,
        changesKind_add (ε := PlanEntry) h rfl, hname (by decide) rfl⟩
  | dropItem i h =>
      exact ⟨changesKind_drop (ε := ItemEntry) h rfl, changesKind_other (by decide) rfl,
        changesKind_other (by decide) rfl, hname (by decide) rfl⟩
  | dropLocation l h =>
      exact ⟨changesKind_other (by decide) rfl, changesKind_drop (ε := LocationEntry) h rfl,
        changesKind_other (by decide) rfl, hname (by decide) rfl⟩

/-- Patches that describe a change leave its trace. -/
theorem trace_of_describes {s t : WorkspaceState} {ps : List FieldPatch}
    (h : Describes s ps t) : Trace s ps t := by
  induction h with
  | nil s => exact .nil s
  | cons he _ ih => exact .cons (changesState_of_edited he) ih

/-! ## 4. The scan and the writer -/

theorem eq_undefined_of_equal {v : JsValue} (h : equal .undefined v = true) : v = .undefined := by
  cases v <;> first | rfl | simp [equal] at h

theorem undefined_of_equal {v : JsValue} (h : equal v .undefined = true) : v = .undefined := by
  cases v <;> first | rfl | simp [equal] at h

/-- Reading a path of nothing. -/
theorem nothing_of_readPath {path : String} {v : JsValue} (h : readPath .undefined path = .ok v) :
    v = .undefined := by
  unfold readPath at h
  split at h
  · exact (Except.ok.inj h).symm
  · rw [result_bind_ok] at h
    obtain ⟨ks, -, h⟩ := h
    cases ks with
    | nil => exact (Except.ok.inj h).symm
    | cons k ks =>
        simp only [readKeys, isObjectLike, Bool.not_false, if_true] at h
        exact (Except.ok.inj h).symm

section Kinds

variable {ε α : Type} [Entity α] [FieldEntry ε α] [RecordKind ε α]
variable {p : FieldPatch} {x y u : WorkspaceState} {current : JsValue}

/-- The patch is made on the records of the state, and tells the change it makes there. -/
def MadeOn (ε : Type) {α : Type} [Entity α] [FieldEntry ε α] [RecordKind ε α] (p : FieldPatch)
    (u : WorkspaceState) : Prop :=
  ∃ l, patchCollection (RecordKind.records ε u) p = .ok l ∧ (l.map idOf).Nodup ∧
    ∀ v, RecordKind.records ε v = l → ChangesKind ε p u v

/-- Replaying the patch of a field. -/
theorem replay_field {new : ε} {a : α} (hk : p.target = RecordKind.kind ε)
    (hn : ((RecordKind.records ε u).map idOf).Nodup) (hp : p.path = FieldEntry.key new)
    (hb : p.before = FieldEntry.value (FieldEntry.here new a))
    (ha : p.after = FieldEntry.value new)
    (hr : readPath (((findKey idOf p.id (RecordKind.records ε u)).map encode).getD .undefined)
      p.path = .ok current)
    (he : equal current p.before = true) : MadeOn ε p u := by
  cases hf : findKey idOf p.id (RecordKind.records ε u) with
  | none =>
      rw [hf] at hr
      rw [nothing_of_readPath hr, hb] at he
      exact absurd (eq_undefined_of_equal he) (FieldEntry.value_ne_undefined (α := α) _)
  | some b =>
      have hid := (findKey_some hf).2
      rw [hf, hp] at hr
      have hcur : current = FieldEntry.value (FieldEntry.here new b) :=
        (Except.ok.inj (hr.symm.trans (FieldEntry.read new b)))
      have hsame : FieldEntry.here new b = FieldEntry.here new a := by
        rw [hcur, hb, ← value_here_of_key (FieldEntry.key_here new a)] at he
        have := FieldEntry.eq_of_equal (FieldEntry.here new a) b he
        rwa [RecordKind.here_here] at this
      have heq : p = patch (RecordKind.kind ε) (idOf b) (FieldEntry.key new)
          (FieldEntry.value (FieldEntry.here new b)) (FieldEntry.value new) := by
        rw [hsame, ← hb, ← ha, ← hp, ← hk, hid]
        rfl
      rw [← hid] at hf
      refine ⟨modifyKey idOf (idOf b) (FieldEntry.put new) (RecordKind.records ε u), ?_, ?_,
        fun v hv => ?_⟩
      · rw [heq]
        exact patchCollection_field new hn hf _ _
      · rw [map_modifyKey (FieldEntry.idOf_put new)]
        exact hn
      · rw [heq]
        exact changesKind_field new hf hv

/-- Replaying the patch of a new record. -/
theorem replay_add {a : α} (hk : p.target = RecordKind.kind ε)
    (hn : ((RecordKind.records ε u).map idOf).Nodup) (hp : p.path = "") (hid : idOf a = p.id)
    (hb : p.before = .undefined) (ha : p.after = encode a)
    (hr : readPath (((findKey idOf p.id (RecordKind.records ε u)).map encode).getD .undefined)
      p.path = .ok current)
    (he : equal current p.before = true) : MadeOn ε p u := by
  rw [hp] at hr
  rw [hb] at he
  have hcur := undefined_of_equal he
  cases hf : findKey idOf p.id (RecordKind.records ε u) with
  | some b =>
      rw [hf] at hr
      exact absurd ((Except.ok.inj hr).trans hcur) (encode_ne_undefined b)
  | none =>
      have heq : p = patch (RecordKind.kind ε) (idOf a) "" .undefined (encode a) := by
        rw [hid, ← hb, ← ha, ← hp, ← hk]
        rfl
      rw [← hid] at hf
      refine ⟨RecordKind.records ε u ++ [a], ?_, nodup_append_new hn hf, fun v hv => ?_⟩
      · rw [heq]
        exact patchCollection_add hf (encode_ne_undefined a) _ _
      · rw [heq]
        exact changesKind_add hf hv

/-- Replaying the patch of a dropped record. -/
theorem replay_drop {a : α} (hk : p.target = RecordKind.kind ε)
    (hn : ((RecordKind.records ε u).map idOf).Nodup) (hp : p.path = "") (hid : idOf a = p.id)
    (hb : p.before = encode a) (ha : p.after = .undefined)
    (hr : readPath (((findKey idOf p.id (RecordKind.records ε u)).map encode).getD .undefined)
      p.path = .ok current)
    (he : equal current p.before = true) : MadeOn ε p u := by
  rw [hp] at hr
  rw [hb] at he
  cases hf : findKey idOf p.id (RecordKind.records ε u) with
  | none =>
      rw [hf] at hr
      rw [nothing_of_readPath hr] at he
      exact absurd (eq_undefined_of_equal he) (encode_ne_undefined a)
  | some b =>
      rw [hf] at hr
      have hcur : current = encode b := (Except.ok.inj hr).symm
      rw [hcur] at he
      obtain rfl := Exact.eq_of_equal b a he
      have heq : p = patch (RecordKind.kind ε) (idOf b) "" (encode b) .undefined := by
        rw [hid, ← hb, ← ha, ← hp, ← hk]
        rfl
      rw [← hid] at hf
      refine ⟨(RecordKind.records ε u).filter fun c => idOf c ≠ idOf b, ?_, nodup_filter hn _,
        fun v hv => ?_⟩
      · rw [heq]
        exact patchCollection_drop hn _ _ _
      · rw [heq]
        exact changesKind_drop hf hv

/-- A patch that tells a change, replayed where it reads the value it started from, is made. -/
theorem ChangesKind.replay (h : ChangesKind ε p x y) (hk : p.target = RecordKind.kind ε)
    (hu : Unique u) (hr : readPatchValue u p.target p.id p.path = .ok current)
    (he : equal current p.before = true) : MadeOn ε p u := by
  have hn := RecordKind.nodup (ε := ε) u hu
  rw [hk, RecordKind.read] at hr
  have hc := h.here hk
  generalize found ε x p.id = before at hc
  generalize found ε y p.id = after at hc
  cases hc with
  | field new a hp hb ha => exact replay_field hk hn hp hb ha hr he
  | add a hp hid hb ha => exact replay_add hk hn hp hid hb ha hr he
  | drop a hp hid hb ha => exact replay_drop hk hn hp hid hb ha hr he

end Kinds

/-- The name of the workspace, likewise. -/
theorem ChangesName.replay {p : FieldPatch} {x y u : WorkspaceState} {current : JsValue}
    (h : ChangesName p x y) (hk : p.target = .workspace)
    (hr : readPatchValue u p.target p.id p.path = .ok current)
    (he : equal current p.before = true) :
    applyFieldPatch u p = .ok (u.rename y.workspace.name) ∧
      ChangesName p u (u.rename y.workspace.name) := by
  obtain ⟨hp, hid, hb, ha⟩ := h.here hk
  rw [hk, hp] at hr
  have hread : readPath (if u.workspace.id = p.id then encode u.workspace else .undefined)
      "name" = .ok current := hr
  by_cases hw : u.workspace.id = p.id
  · rw [if_pos hw, read_workspace_name] at hread
    obtain rfl : encode u.workspace.name = current := Except.ok.inj hread
    rw [hb] at he
    have hname : u.workspace.name = x.workspace.name := Exact.eq_of_equal _ _ he
    have heq : p = patch .workspace u.workspace.id "name" (encode u.workspace.name)
        (encode y.workspace.name) := by
      rw [hname, hw, ← hb, ← ha, ← hp, ← hk]
      rfl
    have hpatch : patchWorkspace u.workspace p =
        .ok { u.workspace with name := y.workspace.name } := by
      rw [heq]
      simp only [patchWorkspace, patch, if_neg (show ("name" : String) ≠ "" by decide), if_true]
      rw [write_workspace_name]
      simp only [decodeRecord, bind, Except.bind, Codec.decode_encode]
    refine ⟨?_, fun _ => ⟨hp, hw.symm, by rw [hb, hname], ha⟩, fun h => absurd hk h, rfl⟩
    unfold applyFieldPatch
    rw [hk]
    simp only [hpatch]
    rfl
  · rw [if_neg hw] at hread
    rw [nothing_of_readPath hread, hb] at he
    exact absurd (eq_undefined_of_equal he) (fun h => by cases h)

/-- Only a patch of the workspace is about it. -/
theorem applyFieldPatch_workspace {p : FieldPatch} {u v : WorkspaceState}
    (hk : p.target ≠ .workspace) (h : applyFieldPatch u p = .ok v) :
    v.workspace = u.workspace := by
  unfold applyFieldPatch at h
  split at h <;> simp only [result_bind_ok, result_pure_ok] at h
  · rename_i hw
    exact absurd hw hk
  · obtain ⟨_, -, rfl⟩ := h
    rfl
  · obtain ⟨_, -, rfl⟩ := h
    rfl
  · obtain ⟨_, -, rfl⟩ := h
    rfl

theorem changesName_away {p : FieldPatch} {u v : WorkspaceState} (hk : p.target ≠ .workspace)
    (h : v.workspace = u.workspace) : ChangesName p u v :=
  ⟨fun hw => absurd hw hk, fun _ => by rw [h], by rw [h]⟩

/-- **A patch that tells a change, replayed where it reads the value it started from, is made
    there.** -/
theorem ChangesState.replay {p : FieldPatch} {x y u : WorkspaceState} {current : JsValue}
    (h : ChangesState p x y) (hu : Unique u)
    (hr : readPatchValue u p.target p.id p.path = .ok current)
    (he : equal current p.before = true) :
    ∃ v, applyFieldPatch u p = .ok v ∧ ChangesState p u v ∧ Unique v := by
  cases hk : p.target with
  | workspace =>
      obtain ⟨hv, hname⟩ := h.name.replay hk hr he
      have hne : p.target ≠ .item ∧ p.target ≠ .location ∧ p.target ≠ .plan := by
        rw [hk]
        decide
      exact ⟨_, hv, ⟨changesKind_away hne.1 rfl, changesKind_away hne.2.1 rfl,
        changesKind_away hne.2.2 rfl, hname⟩, hu.items, hu.locations, hu.plans⟩
  | item =>
      obtain ⟨l, hl, hn, hc⟩ := h.items.replay hk hu hr he
      obtain ⟨v, hv, rfl⟩ := RecordKind.apply (ε := ItemEntry) u p l hk hl
      have hne : p.target ≠ .location ∧ p.target ≠ .plan ∧ p.target ≠ .workspace := by
        rw [hk]
        decide
      have hloc := RecordKind.apply_other (ε := LocationEntry) u v p hne.1 hv
      have hplan := RecordKind.apply_other (ε := PlanEntry) u v p hne.2.1 hv
      exact ⟨v, hv, ⟨hc v rfl, changesKind_away hne.1 hloc, changesKind_away hne.2.1 hplan,
        changesName_away hne.2.2 (applyFieldPatch_workspace hne.2.2 hv)⟩, hn,
        (congrArg (List.map Location.id) hloc) ▸ hu.locations,
        (congrArg (List.map MovePlan.id) hplan) ▸ hu.plans⟩
  | location =>
      obtain ⟨l, hl, hn, hc⟩ := h.locations.replay hk hu hr he
      obtain ⟨v, hv, rfl⟩ := RecordKind.apply (ε := LocationEntry) u p l hk hl
      have hne : p.target ≠ .item ∧ p.target ≠ .plan ∧ p.target ≠ .workspace := by
        rw [hk]
        decide
      have hitem := RecordKind.apply_other (ε := ItemEntry) u v p hne.1 hv
      have hplan := RecordKind.apply_other (ε := PlanEntry) u v p hne.2.1 hv
      exact ⟨v, hv, ⟨changesKind_away hne.1 hitem, hc v rfl, changesKind_away hne.2.1 hplan,
        changesName_away hne.2.2 (applyFieldPatch_workspace hne.2.2 hv)⟩,
        (congrArg (List.map ItemRecord.id) hitem) ▸ hu.items, hn,
        (congrArg (List.map MovePlan.id) hplan) ▸ hu.plans⟩
  | plan =>
      obtain ⟨l, hl, hn, hc⟩ := h.plans.replay hk hu hr he
      obtain ⟨v, hv, rfl⟩ := RecordKind.apply (ε := PlanEntry) u p l hk hl
      have hne : p.target ≠ .item ∧ p.target ≠ .location ∧ p.target ≠ .workspace := by
        rw [hk]
        decide
      have hitem := RecordKind.apply_other (ε := ItemEntry) u v p hne.1 hv
      have hloc := RecordKind.apply_other (ε := LocationEntry) u v p hne.2.1 hv
      exact ⟨v, hv, ⟨changesKind_away hne.1 hitem, changesKind_away hne.2.1 hloc, hc v rfl,
        changesName_away hne.2.2 (applyFieldPatch_workspace hne.2.2 hv)⟩,
        (congrArg (List.map ItemRecord.id) hitem) ▸ hu.items,
        (congrArg (List.map Location.id) hloc) ▸ hu.locations, hn⟩

theorem meaningful_cons (p : FieldPatch) (ps : List FieldPatch) :
    meaningfulActivityPatches (p :: ps) = if isActivityBookkeepingPatch p
      then meaningfulActivityPatches ps else p :: meaningfulActivityPatches ps := by
  unfold meaningfulActivityPatches
  cases h : isActivityBookkeepingPatch p <;> simp [h]

/-- **A scan that finds no conflict replays the change**: the patches tell the way from the state
    they are replayed on to the one the writer leaves. -/
theorem trace_of_loop {direction : Direction} {commandId : String} {x y u w : WorkspaceState}
    {ps : List FieldPatch} (hx : Trace x ps y) (hu : Unique u)
    (hc : historyConflictsLoop direction commandId u (meaningfulActivityPatches ps) = .ok [])
    (hw : applyPatches u (meaningfulActivityPatches ps) = .ok w) :
    Trace u (meaningfulActivityPatches ps) w ∧ Unique w := by
  induction hx generalizing u with
  | nil x =>
      cases hw
      exact ⟨.nil _, hu⟩
  | @cons x x' y p ps hp _ ih =>
      rw [meaningful_cons] at hc hw ⊢
      split at hc
      · rename_i hb
        rw [if_pos hb] at hw ⊢
        exact ih hu hc hw
      · rename_i hb
        rw [if_neg hb] at hw ⊢
        simp only [historyConflictsLoop, result_bind_ok] at hc
        obtain ⟨current, hcurrent, hc⟩ := hc
        split at hc
        · simp only [result_bind_ok, result_pure_ok] at hc
          obtain ⟨more, -, h⟩ := hc
          cases h
        · rename_i he
          have he : equal current p.before = true := by simpa using he
          obtain ⟨v, hv, hpv, huv⟩ := hp.replay hu hcurrent he
          simp only [result_bind_ok] at hc
          obtain ⟨v', hv', hc⟩ := hc
          obtain rfl : v = v' := Except.ok.inj (hv.symm.trans hv')
          rw [applyPatches, hv] at hw
          obtain ⟨ht, hn⟩ := ih huv hc hw
          exact ⟨.cons hpv ht, hn⟩

/-! ## 5. One change on two states -/

/-- The paths of a record that patches name. -/
def pathsOf (ps : List FieldPatch) (kind : PatchTarget) (id : String) : List String :=
  (ps.filter fun p => p.target = kind && p.id = id).map (·.path)

/-- The paths some patches change of a record. -/
theorem mem_pathsOf {ps : List FieldPatch} {kind : PatchTarget} {id path : String} :
    path ∈ pathsOf ps kind id ↔ ∃ p ∈ ps, p.target = kind ∧ p.id = id ∧ p.path = path := by
  simp [pathsOf, and_assoc]

theorem mem_pathsOf_cons {p : FieldPatch} {ps : List FieldPatch} {kind : PatchTarget}
    {id path : String} : path ∈ pathsOf (p :: ps) kind id ↔
      (p.target = kind ∧ p.id = id ∧ p.path = path) ∨ path ∈ pathsOf ps kind id := by
  simp [mem_pathsOf]

section Runs

variable {ε α : Type} [Entity α] [FieldEntry ε α] [RecordKind ε α]
variable {p : FieldPatch} {x y u v w : WorkspaceState} {ps : List FieldPatch} {id : String}

/-- The reading of a record does not depend on bookkeeping. -/
def Steady (ε : Type) {α β : Type} [Entity α] [FieldEntry ε α] [RecordKind ε α] (f : α → β) :
    Prop :=
  ∀ (e : ε) (a : α), RecordKind.stamp e = true → f (FieldEntry.put e a) = f a

/-- There is no difference but in bookkeeping. -/
def SameRecord (ε : Type) {α : Type} [Entity α] [FieldEntry ε α] [RecordKind ε α]
    (a b : Option α) : Prop :=
  ∀ (β : Type) (f : α → β), Steady ε f → a.map f = b.map f

theorem SameRecord.refl (a : Option α) : SameRecord ε a a := fun _ _ _ => rfl

theorem SameRecord.symm {a b : Option α} (h : SameRecord ε a b) : SameRecord ε b a :=
  fun β f hf => (h β f hf).symm

theorem SameRecord.trans {a b c : Option α} (h : SameRecord ε a b) (h' : SameRecord ε b c) :
    SameRecord ε a c :=
  fun β f hf => (h β f hf).trans (h' β f hf)

/-- A patch is about a record in both states, or in neither. -/
theorem ChangesKind.about (h : ChangesKind ε p x y) (h' : ChangesKind ε p u v) (id : String) :
    (p.target = RecordKind.kind ε ∧ p.id = id ∧ Changes ε p (found ε x id) (found ε y id) ∧
      Changes ε p (found ε u id) (found ε v id)) ∨
    (¬ (p.target = RecordKind.kind ε ∧ p.id = id) ∧ found ε y id = found ε x id ∧
      found ε v id = found ε u id) := by
  by_cases hid : p.target = RecordKind.kind ε ∧ p.id = id
  · obtain ⟨hk, rfl⟩ := hid
    exact .inl ⟨hk, rfl, h.here hk, h'.here hk⟩
  · have hne : p.target = RecordKind.kind ε → id ≠ p.id := fun hk he => hid ⟨hk, he.symm⟩
    exact .inr ⟨hid, h.other id hne, h'.other id hne⟩

/-- Bookkeeping changes no other field. -/
theorem ChangesKind.stamped (h : ChangesKind ε p x y) (hb : isActivityBookkeepingPatch p = true)
    (id : String) : SameRecord ε (found ε y id) (found ε x id) := by
  intro β f hf
  rcases h.about h id with ⟨hk, -, hc, -⟩ | ⟨-, he, -⟩
  · generalize found ε x id = a at hc ⊢
    generalize found ε y id = b at hc ⊢
    cases hc with
    | field new a hp _ _ =>
        have hs : RecordKind.stamp new = true := by
          rw [← RecordKind.bookkeeping new p hk hp]
          exact hb
        exact congrArg some (hf new a hs)
    | add a hp _ _ _ => simp [isActivityBookkeepingPatch, hp] at hb
    | drop a hp _ _ _ => simp [isActivityBookkeepingPatch, hp] at hb
  · rw [he]

/-- What a record shows of a field that is not a stamp. -/
theorem steady_look {e : ε} (he : RecordKind.stamp e = false) :
    Steady ε fun a : α => FieldEntry.value (FieldEntry.here e a) := by
  intro s a hs
  show FieldEntry.value (FieldEntry.here e (FieldEntry.put s a)) = _
  rw [RecordKind.here_put_stamp s e a hs he]

/-- Records that differ in bookkeeping only still do after one patch on both. -/
theorem Changes.same {a b c d : Option α} (h : Changes ε p a b) (h' : Changes ε p c d)
    (hk : p.target = RecordKind.kind ε) (hb : isActivityBookkeepingPatch p = false)
    (hs : SameRecord ε a c) : SameRecord ε b d := by
  by_cases hp : p.path = ""
  · rw [h.whole h' hp]
    exact .refl _
  · intro β f hf
    cases h with
    | add a hp' _ _ _ => exact absurd hp' hp
    | drop a hp' _ _ _ => exact absurd hp' hp
    | field new a hpath _ ha =>
        cases h' with
        | add b hp' _ _ _ => exact absurd hp' hp
        | drop b hp' _ _ _ => exact absurd hp' hp
        | field new' b hpath' _ hb' =>
            have hnew : RecordKind.stamp new = false := by
              rw [← RecordKind.bookkeeping new p hk hpath]
              exact hb
            have hsteady : Steady ε fun a => f (FieldEntry.put new a) := by
              intro e a he
              show f (FieldEntry.put new (FieldEntry.put e a)) = _
              rw [RecordKind.put_stamp e new a he hnew]
              exact hf e _ he
            rw [put_of_key (hpath'.symm.trans hpath) (hb'.symm.trans ha)]
            exact hs _ _ hsteady

/-- **What a replay names reads as it does where the change went**: so it was before, or some
    patch sets it. -/
theorem Trail.agree (hx : Trail (ChangesKind ε) x ps y)
    (hu : Trail (ChangesKind ε) u (meaningfulActivityPatches ps) w) {e : ε}
    (he : RecordKind.stamp e = false)
    (h : look e (found ε x id) = look e (found ε u id) ∨
      FieldEntry.key e ∈ pathsOf (meaningfulActivityPatches ps) (RecordKind.kind ε) id) :
    look e (found ε y id) = look e (found ε w id) := by
  induction hx generalizing u with
  | nil x =>
      cases hu
      exact h.resolve_right fun hm => absurd hm List.not_mem_nil
  | @cons x x' y p ps hp _ ih =>
      rw [meaningful_cons] at hu h
      split at hu
      · rename_i hb
        rw [if_pos hb] at h
        exact ih hu (h.imp_left fun hl => (hp.stamped hb id _ _ (steady_look he)).trans hl)
      · rename_i hb
        rw [if_neg hb] at h
        cases hu with
        | cons hq hrest =>
            refine ih hrest ?_
            rcases hp.about hq id with ⟨hk, hid, hc, hc'⟩ | ⟨hne, hx', hu'⟩
            · rcases h with h | h
              · exact .inl (hc.look hc' h)
              · exact (mem_pathsOf_cons.mp h).imp_left fun h => hc.named hc' h.2.2.symm
            · rw [hx', hu']
              refine h.imp_right fun h => ?_
              exact (mem_pathsOf_cons.mp h).resolve_left fun h => hne ⟨h.1, h.2.1⟩

/-- **A record the patches put in or take away** is there or not, and all its fields, as where the
    change went. -/
theorem Trail.same (hx : Trail (ChangesKind ε) x ps y)
    (hu : Trail (ChangesKind ε) u (meaningfulActivityPatches ps) w)
    (h : SameRecord ε (found ε x id) (found ε u id) ∨
      "" ∈ pathsOf (meaningfulActivityPatches ps) (RecordKind.kind ε) id) :
    SameRecord ε (found ε y id) (found ε w id) := by
  induction hx generalizing u with
  | nil x =>
      cases hu
      exact h.resolve_right fun hm => absurd hm List.not_mem_nil
  | @cons x x' y p ps hp _ ih =>
      rw [meaningful_cons] at hu h
      split at hu
      · rename_i hb
        rw [if_pos hb] at h
        exact ih hu (h.imp_left (hp.stamped hb id).trans)
      · rename_i hb
        rw [if_neg hb] at h
        cases hu with
        | cons hq hrest =>
            refine ih hrest ?_
            rcases hp.about hq id with ⟨hk, hid, hc, hc'⟩ | ⟨hne, hx', hu'⟩
            · rcases h with h | h
              · exact .inl (hc.same hc' hk (Bool.not_eq_true _ ▸ hb) h)
              · refine (mem_pathsOf_cons.mp h).imp_left fun h => ?_
                rw [hc.whole hc' h.2.2]
                exact .refl _
            · rw [hx', hu']
              refine h.imp_right fun h => ?_
              exact (mem_pathsOf_cons.mp h).resolve_left fun h => hne ⟨h.1, h.2.1⟩

/-- **What the patches do not name stays**: every reading that none of the fields they set
    affects. -/
theorem Trail.rest (hu : Trail (ChangesKind ε) u ps w)
    (hw : "" ∉ pathsOf ps (RecordKind.kind ε) id) {β : Type} {f : α → β}
    (hf : ∀ e : ε, FieldEntry.key e ∈ pathsOf ps (RecordKind.kind ε) id →
      ∀ a, f (FieldEntry.put e a) = f a) :
    (found ε w id).map f = (found ε u id).map f := by
  induction hu with
  | nil u => rfl
  | @cons u v w p ps hp _ ih =>
      have hmore : ∀ path, path ∈ pathsOf ps (RecordKind.kind ε) id →
          path ∈ pathsOf (p :: ps) (RecordKind.kind ε) id :=
        fun _ h => mem_pathsOf_cons.mpr (.inr h)
      rw [ih (fun h => hw (hmore _ h)) fun e h => hf e (hmore _ h)]
      rcases hp.about hp id with ⟨hk, hid, hc, -⟩ | ⟨-, he, -⟩
      · have hin : p.path ∈ pathsOf (p :: ps) (RecordKind.kind ε) id :=
          mem_pathsOf_cons.mpr (.inl ⟨hk, hid, rfl⟩)
        generalize found ε u id = a at hc ⊢
        generalize found ε v id = b at hc ⊢
        cases hc with
        | field new a hpath _ _ =>
            rw [hpath] at hin
            exact congrArg some (hf new hin a)
        | add a hpath _ _ _ => exact absurd (hpath ▸ hin) hw
        | drop a hpath _ _ _ => exact absurd (hpath ▸ hin) hw
      · rw [he]

/-- A record no patch names is untouched. -/
theorem Trail.away (hu : Trail (ChangesKind ε) u ps w)
    (h : pathsOf ps (RecordKind.kind ε) id = []) : found ε w id = found ε u id := by
  have hnone : ∀ path, path ∉ pathsOf ps (RecordKind.kind ε) id := by
    intro path hp
    rw [h] at hp
    cases hp
  have := hu.rest (f := fun a => a) (hnone "") fun e he => absurd he (hnone _)
  simpa using this

end Runs

/-- The name of the workspace after a replay. -/
theorem Trail.name {x y u w : WorkspaceState} {ps : List FieldPatch}
    (hx : Trail ChangesName x ps y)
    (hu : Trail ChangesName u (meaningfulActivityPatches ps) w)
    (h : x.workspace.name = u.workspace.name ∨
      ∃ p ∈ meaningfulActivityPatches ps, p.target = .workspace) :
    y.workspace.name = w.workspace.name := by
  induction hx generalizing u with
  | nil x =>
      cases hu
      refine h.resolve_right fun hm => ?_
      obtain ⟨p, hp, -⟩ := hm
      cases hp
  | @cons x x' y p ps hp _ ih =>
      rw [meaningful_cons] at hu h
      split at hu
      · rename_i hb
        rw [if_pos hb] at h
        have hne : p.target ≠ .workspace := by
          intro hk
          simp [isActivityBookkeepingPatch, hk] at hb
        exact ih hu (h.imp_left fun hn => (hp.other hne).trans hn)
      · rename_i hb
        rw [if_neg hb] at h
        cases hu with
        | cons hq hrest =>
            refine ih hrest ?_
            by_cases hk : p.target = .workspace
            · left
              have ha := (hp.here hk).2.2.2
              rw [(hq.here hk).2.2.2] at ha
              exact (encode_injective ha).symm
            · rw [hp.other hk, hq.other hk]
              refine h.imp_right fun hex => ?_
              obtain ⟨q, hq, hqk⟩ := hex
              rcases List.mem_cons.mp hq with rfl | hq
              · exact absurd hqk hk
              · exact ⟨q, hq, hqk⟩

theorem Trail.name_rest {u w : WorkspaceState} {ps : List FieldPatch}
    (hu : Trail ChangesName u ps w) (h : ∀ p ∈ ps, p.target ≠ .workspace) :
    w.workspace.name = u.workspace.name := by
  induction hu with
  | nil u => rfl
  | cons hp _ ih =>
      rw [ih fun p hq => h p (List.mem_cons_of_mem _ hq)]
      exact hp.other (h _ List.mem_cons_self)

end Stowplan
