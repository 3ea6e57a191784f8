/-
  File:      Stowplan/Domain/Moves.lean
  Subject:   MOVING THINGS CONSERVES THEM: `item.move`, `item.bulkMove` and the item steps of a
  plan (`moveItemPatches`, `equivalent` in commands.ts), in exact numbers.

  A move changes the record in place, splits it, or merges it into a record at the destination
  that `equivalent` cannot tell apart. `MergeKey` is all that comparison looks at, so a move
  carries a quantity of one kind from one location to another. Everything that is said about
  quantities follows from what a move does to a weighted sum of them, for every weighting of
  kinds and locations (`Transfer.weigh`).

  * `equivalent_iff`: records merge when they have the same key;
  * `Transfer.weigh`, `Transfers.weigh`: one move, and several, on the scales;
  * `moves_conserve`: what an accepted moving command does to the stock;
  * `moves_onGrid`: where quantities are multiples of one power of two, and not too many, the
    doubles of the source are exact;
  * `moves_conserve_run`: there, over a run of them, no kind gets more or less.
-/
import Stowplan.Domain.Expectations
import Stowplan.Domain.Pinned
import Stowplan.Lib.Outcome
import Stowplan.Lib.Tally
import Mathlib.Algebra.Group.Subgroup.ZPowers.Basic
import Mathlib.Tactic.Ring

namespace Stowplan

open Keyed JsValue Relation

/-! ## 1. Kinds -/

/-- All that `equivalent` compares of an item. -/
structure MergeKey where
  name : String
  category : String
  unit : String
  tags : List String
  constraints : ItemConstraints
  dimensions : Option Dimensions
  frequency : Frequency
  description : String
  deriving DecidableEq

section Keys

variable [Host]

/-- The kind of an item. -/
def ItemRecord.mergeKey (i : ItemRecord) : MergeKey where
  name := lowered i.name
  category := lowered i.category
  unit := lowered i.unit
  tags := sortStrings i.tags
  constraints := i.constraints
  dimensions := i.dimensions
  frequency := i.frequency
  description := i.description

/-- Two items are equivalent when they are of one kind. -/
theorem equivalent_iff {a b : ItemRecord} : equivalent a b = true ↔ a.mergeKey = b.mergeKey := by
  simp only [equivalent, ItemRecord.mergeKey, MergeKey.mk.injEq, Bool.and_eq_true, beq_iff_eq,
    equal_encode, decide_eq_true_eq, and_assoc]

/-- Records that are merged are of one kind. -/
theorem mergeTarget_key {s : WorkspaceState} {i m : ItemRecord} {destinationId : String}
    (h : mergeTarget s i destinationId = some m) : m.mergeKey = i.mergeKey := by
  have h1 := List.find?_some h
  simp only [Bool.and_eq_true] at h1
  exact equivalent_iff.mp h1.2

end Keys

/-! ## 2. Exact quantities -/

namespace JsNumber

/-- A sum within the range is exact. -/
theorem exact_add {x y : JsNumber} (hx : x.isFinite = true) (hy : y.isFinite = true)
    (hle : -maxValue ≤ x.exact + y.exact) (hge : x.exact + y.exact ≤ maxValue) :
    (x.add y).exact = x.exact + y.exact := by
  obtain ⟨a, rfl, -, -⟩ := isFinite_iff.mp hx
  obtain ⟨b, rfl, -, -⟩ := isFinite_iff.mp hy
  have hsum : ofRat (a + b) = .finite (a + b) := ofRat_of_le hle hge
  show (ofRat (a + b)).exact = a + b
  rw [hsum]
  rfl

theorem exact_pos {x : JsNumber} (hx : x.isFinite = true) (hp : x.pos = true) : 0 < x.exact := by
  obtain ⟨a, rfl, -, -⟩ := isFinite_iff.mp hx
  rw [pos_finite, decide_eq_true_eq] at hp
  exact hp

theorem exact_le {x : JsNumber} (hx : x.isFinite = true) : x.exact ≤ maxValue := by
  obtain ⟨a, rfl, -, h⟩ := isFinite_iff.mp hx
  exact h

theorem exact_lt {x y : JsNumber} (hx : x.isFinite = true) (hy : y.isFinite = true)
    (h : lt x y = true) : x.exact < y.exact := by
  obtain ⟨a, rfl, -, -⟩ := isFinite_iff.mp hx
  obtain ⟨b, rfl, -, -⟩ := isFinite_iff.mp hy
  rw [lt_finite, decide_eq_true_eq] at h
  exact h

/-- What remains of a quantity is the difference. -/
theorem exact_sub {x y : JsNumber} (hx : x.isFinite = true) (hy : y.isFinite = true)
    (hp : y.pos = true) (h : lt y x = true) : (x.sub y).exact = x.exact - y.exact := by
  have hlt := exact_lt hy hx h
  have h0 := exact_pos hy hp
  have hmax := exact_le hx
  have hm := maxValue_pos
  obtain ⟨a, rfl, -, -⟩ := isFinite_iff.mp hx
  obtain ⟨b, rfl, -, -⟩ := isFinite_iff.mp hy
  have hfin : (JsNumber.finite (-b)).isFinite = true := by
    simp only [isFinite, decide_eq_true_eq]
    simp only [exact] at hlt h0 hmax
    constructor <;> linarith
  show ((finite a).add (.finite (-b))).exact = a - b
  simp only [exact] at hlt h0 hmax
  rw [exact_add hx hfin]
  · exact (sub_eq_add_neg a b).symm
  · show -maxValue ≤ a + -b
    linarith
  · show a + -b ≤ maxValue
    linarith

end JsNumber

/-! ## 3. Scales -/

section Scales

variable [Host]

/-- What an item weighs when a unit of a kind in a location weighs `w`: archived items weigh
    nothing. -/
def ItemRecord.weight (w : MergeKey → String → ℚ) (i : ItemRecord) : ℚ :=
  if i.active then i.quantity.exact * w i.mergeKey i.locationId else 0

/-- The weight of a list of items. -/
def weigh (w : MergeKey → String → ℚ) (items : List ItemRecord) : ℚ :=
  tally (ItemRecord.weight w) items

/-- How much of a kind there is. -/
def total (items : List ItemRecord) (kind : MergeKey) : ℚ :=
  weigh (fun k _ => if k = kind then 1 else 0) items

/-- How much of a kind there is in a location. -/
def stock (items : List ItemRecord) (kind : MergeKey) (locationId : String) : ℚ :=
  weigh (fun k l => if k = kind ∧ l = locationId then 1 else 0) items

/-- No kind adds up to more than numbers can say. -/
def InRange (s : WorkspaceState) : Prop := ∀ kind, total s.items kind ≤ JsNumber.maxValue

variable {s t : WorkspaceState} {destinationId timestamp : String} {i : ItemRecord}
  {quantity : JsNumber}

/-- What an active item weighs. -/
theorem weight_active {w : MergeKey → String → ℚ} (h : i.active = true) :
    i.weight w = i.quantity.exact * w i.mergeKey i.locationId :=
  if_pos h

/-- On the scale of a kind nothing weighs less than nothing. -/
theorem weight_nonneg (hw : WellFormed s) (kind : MergeKey) : ∀ j ∈ s.items,
    0 ≤ j.weight fun k _ => if k = kind then (1 : ℚ) else 0 := by
  intro j hj
  have hpos := JsNumber.exact_pos (hw.quantities j hj).1 (hw.quantities j hj).2
  unfold ItemRecord.weight
  split
  · refine mul_nonneg hpos.le ?_
    show (0 : ℚ) ≤ if j.mergeKey = kind then 1 else 0
    split
    · exact zero_le_one
    · exact le_refl 0
  · exact le_refl 0

/-- There is at least as much of a kind as of one active item of it. -/
theorem quantity_le_total (hw : WellFormed s) (hi : i ∈ s.items) (hact : i.active = true) :
    i.quantity.exact ≤ total s.items i.mergeKey := by
  have hle := le_tally (weight_nonneg hw i.mergeKey) hi
  rw [weight_active hact, if_pos rfl, mul_one] at hle
  exact hle

/-- Two different active items of a kind together are in range. -/
theorem InRange.pair (hr : InRange s) (hw : WellFormed s) {m : ItemRecord} (hm : m ∈ s.items)
    (hi : i ∈ s.items) (hne : m ≠ i) (hma : m.active = true) (hia : i.active = true)
    (hk : m.mergeKey = i.mergeKey) :
    m.quantity.exact + i.quantity.exact ≤ JsNumber.maxValue := by
  refine le_trans ?_ (hr i.mergeKey)
  have hle := add_le_tally (weight_nonneg hw i.mergeKey) hm hi hne
  rw [weight_active hma, weight_active hia, if_pos hk, if_pos rfl, mul_one, mul_one] at hle
  exact hle

/-- Replacing an item changes the weight by the difference. -/
theorem weigh_putItem (hu : Unique s) {j j' : ItemRecord} (hj : j ∈ s.items)
    (hid : j'.id = j.id) (w : MergeKey → String → ℚ) :
    weigh w (s.putItem j').items = weigh w s.items - j.weight w + j'.weight w :=
  tally_replaceKey hu.items hj hid

/-- Dropping an item takes its weight. -/
theorem weigh_dropItem (hu : Unique s) {j : ItemRecord} (hj : j ∈ s.items)
    (w : MergeKey → String → ℚ) :
    weigh w (s.dropItem j.id).items = weigh w s.items - j.weight w :=
  tally_filter_key hu.items hj

/-- Adding an item adds its weight. -/
theorem weigh_addItem (j : ItemRecord) (w : MergeKey → String → ℚ) :
    weigh w (s.addItem j).items = weigh w s.items + j.weight w := by
  show tally _ (s.items ++ [j]) = _
  rw [tally_append, tally_singleton]
  rfl

omit [Host] in
theorem mem_putItem {j j' : ItemRecord} (hj : j ∈ s.items) (hne : j.id ≠ j'.id) :
    j ∈ (s.putItem j').items :=
  mem_replaceKey.mpr (.inl ⟨hj, hne⟩)

/-- What merging adds to the target is no more than the range allows. -/
theorem exact_merged (hw : WellFormed s) (hr : InRange s) (hi : i ∈ s.items)
    (hact : i.active = true) {m : ItemRecord} (hm : mergeTarget s i destinationId = some m)
    (hf : quantity.isFinite = true) (hp : 0 < quantity.exact)
    (hle : quantity.exact ≤ i.quantity.exact) :
    (m.quantity.add quantity).exact = m.quantity.exact + quantity.exact := by
  obtain ⟨hmm, hne, hma, -⟩ := mergeTarget_some hm
  have hmq := hw.quantities m hmm
  have hpair := hr.pair hw hmm hi (fun he => hne (congrArg _ he)) hma hact (mergeTarget_key hm)
  have hm0 := JsNumber.exact_pos hmq.1 hmq.2
  have hmax := JsNumber.maxValue_pos
  exact JsNumber.exact_add hmq.1 hf (by linarith) (by linarith)

/-- The item with another quantity, as a move leaves it where it is. -/
def ItemRecord.holding (i : ItemRecord) (quantity : JsNumber) (timestamp : String) :
    ItemRecord :=
  { i with quantity, updatedAt := timestamp, version := i.version + 1 }

theorem weight_holding {w : MergeKey → String → ℚ} (h : i.active = true) (q : JsNumber)
    (timestamp : String) :
    (i.holding q timestamp).weight w = q.exact * w i.mergeKey i.locationId :=
  if_pos h

/-- **A move on the scales**: it takes the quantity from where the item is to the destination,
    whatever a unit of the kind weighs there and here. -/
theorem Transfer.weigh (hw : WellFormed s) (hr : InRange s) (hi : findItem s i.id = some i)
    (hact : i.active = true) (h : Transfer s destinationId timestamp i quantity t)
    (w : MergeKey → String → ℚ) :
    Stowplan.weigh w t.items = Stowplan.weigh w s.items +
      quantity.exact * (w i.mergeKey destinationId - w i.mergeKey i.locationId) := by
  obtain ⟨him, -⟩ := findItem_mem hi
  have hu := hw.unique
  have hiq := hw.quantities i him
  have hi0 := JsNumber.exact_pos hiq.1 hiq.2
  have hiw : i.weight w = _ := weight_active hact
  cases h with
  | @merge m hm hv hq hall =>
      subst hall
      obtain ⟨hmm, hne, hma, hmd⟩ := mergeTarget_some hm
      have hsum := exact_merged hw hr him hact hm hiq.1 hi0 (le_refl _)
      have hput := weigh_putItem hu hmm
        (rfl : (m.holding (m.quantity.add i.quantity) timestamp).id = m.id) w
      have hdrop := weigh_dropItem (hu.putItem (m.holding (m.quantity.add i.quantity) timestamp))
        (mem_putItem him (Ne.symm hne)) w
      rw [hput, weight_active hma, weight_holding hma, hsum, mergeTarget_key hm, hmd, hiw] at hdrop
      refine hdrop.trans ?_
      ring
  | @mergePart m hm hv hvi hq hf hp hlt =>
      obtain ⟨hmm, hne, hma, hmd⟩ := mergeTarget_some hm
      have hsum := exact_merged hw hr him hact hm hf (JsNumber.exact_pos hf hp)
        (JsNumber.exact_lt hf hiq.1 (hlt hiq.1)).le
      have hput := weigh_putItem hu hmm
        (rfl : (m.holding (m.quantity.add quantity) timestamp).id = m.id) w
      have hrest := weigh_putItem (hu.putItem (m.holding (m.quantity.add quantity) timestamp))
        (mem_putItem him (Ne.symm hne))
        (rfl : (i.holding (i.quantity.sub quantity) timestamp).id = i.id) w
      rw [hput, weight_active hma, weight_holding hma, weight_holding hact, hsum,
        JsNumber.exact_sub hiq.1 hf hp (hlt hiq.1), mergeTarget_key hm, hmd, hiw] at hrest
      refine hrest.trans ?_
      ring
  | relocate hvi hall =>
      subst hall
      have hput := weigh_putItem hu him (rfl : ({ i with
          locationId := destinationId
          order := destinationOrder s destinationId
          updatedAt := timestamp
          version := i.version + 1 } : ItemRecord).id = i.id) w
      rw [hiw] at hput
      refine hput.trans ?_
      have hthere : ItemRecord.weight w { i with
          locationId := destinationId
          order := destinationOrder s destinationId
          updatedAt := timestamp
          version := i.version + 1 } = i.quantity.exact * w i.mergeKey destinationId :=
        weight_active hact
      rw [hthere]
      ring
  | @split splitId hnew hvi hf hp hlt =>
      have hput := weigh_putItem hu him
        (rfl : (i.holding (i.quantity.sub quantity) timestamp).id = i.id) w
      rw [weight_holding hact, JsNumber.exact_sub hiq.1 hf hp (hlt hiq.1), hiw] at hput
      have hthere : ItemRecord.weight w { i with
          createdAt := timestamp
          id := splitId
          locationId := destinationId
          order := destinationOrder s destinationId
          quantity := quantity
          updatedAt := timestamp
          version := 1 } = quantity.exact * w i.mergeKey destinationId :=
        weight_active hact
      refine (weigh_addItem _ w).trans ((congrArg₂ (· + ·) hput hthere).trans ?_)
      show (_ : ℚ) + _ = _
      ring

/-! ## 4. The records a move leaves -/

/-- The record with the identifier is of the kind, active and in the location. -/
def Lies (items : List ItemRecord) (id : String) (kind : MergeKey) (locationId : String) :
    Prop :=
  ∃ m ∈ items, m.id = id ∧ m.mergeKey = kind ∧ m.locationId = locationId ∧ m.active = true

/-- A move leaves the records of other kinds alone. -/
theorem Transfer.keeps (h : Transfer s destinationId timestamp i quantity t) (hi : i ∈ s.items)
    (hu : Unique s) {j : ItemRecord} (hj : j ∈ s.items) (hk : i.mergeKey ≠ j.mergeKey) :
    j ∈ t.items := by
  have hne : j.id ≠ i.id := fun he => hk (by rw [eq_of_key_eq hu.items hj hi he])
  cases h with
  | @merge m hm =>
      have hnm : j.id ≠ m.id := fun he =>
        hk (by rw [eq_of_key_eq hu.items hj (mergeTarget_some hm).1 he, mergeTarget_key hm])
      exact List.mem_filter.mpr ⟨mem_putItem hj hnm, by simpa using hne⟩
  | @mergePart m hm =>
      have hnm : j.id ≠ m.id := fun he =>
        hk (by rw [eq_of_key_eq hu.items hj (mergeTarget_some hm).1 he, mergeTarget_key hm])
      exact mem_putItem (mem_putItem hj hnm) hne
  | relocate => exact mem_putItem hj hne
  | split => exact List.mem_append_left _ (mem_putItem hj hne)

omit [Host] in
theorem mem_putItem_self {j j' : ItemRecord} (hj : j ∈ s.items) (hid : j'.id = j.id) :
    j' ∈ (s.putItem j').items :=
  mem_replaceKey.mpr (.inr ⟨rfl, j, hj, hid.symm⟩)

/-- What lies at the destination stays there, under its identifier and of its kind. -/
theorem Transfer.stays (h : Transfer s destinationId timestamp i quantity t) (hi : i ∈ s.items)
    (hu : Unique s) (haway : i.locationId ≠ destinationId) {id : String} {kind : MergeKey}
    (hl : Lies s.items id kind destinationId) : Lies t.items id kind destinationId := by
  obtain ⟨m, hm, rfl, hkind, hat, hact⟩ := hl
  have hne : m.id ≠ i.id := fun he =>
    haway (by rw [← eq_of_key_eq hu.items hm hi he, hat])
  have hsame : m ∈ t.items → Lies t.items m.id kind destinationId :=
    fun hmem => ⟨m, hmem, rfl, hkind, hat, hact⟩
  cases h with
  | @merge n hn =>
      obtain ⟨hnm, hni, -, -⟩ := mergeTarget_some hn
      by_cases hmn : m.id = n.id
      · obtain rfl := eq_of_key_eq hu.items hm hnm hmn
        exact ⟨_, List.mem_filter.mpr ⟨mem_putItem_self hm rfl, by simpa using hne⟩, rfl, hkind,
          hat, hact⟩
      · exact hsame (List.mem_filter.mpr ⟨mem_putItem hm hmn, by simpa using hne⟩)
  | @mergePart n hn =>
      obtain ⟨hnm, hni, -, -⟩ := mergeTarget_some hn
      by_cases hmn : m.id = n.id
      · obtain rfl := eq_of_key_eq hu.items hm hnm hmn
        exact ⟨_, mem_putItem (mem_putItem_self hm rfl) hne, rfl, hkind, hat, hact⟩
      · exact hsame (mem_putItem (mem_putItem hm hmn) hne)
  | relocate => exact hsame (mem_putItem hm hne)
  | split => exact hsame (List.mem_append_left _ (mem_putItem hm hne))

/-- A record is gone after a move only when all of it was merged into another at the
    destination. -/
theorem Transfer.gone (h : Transfer s destinationId timestamp i quantity t) (hi : i ∈ s.items)
    (hu : Unique s) {j : ItemRecord} (hj : j ∈ s.items)
    (hgone : ∀ x ∈ t.items, x.id ≠ j.id) :
    j = i ∧ quantity = i.quantity ∧
      ∃ id, id ≠ i.id ∧ Lies t.items id i.mergeKey destinationId := by
  have hput : ∀ j' ∈ s.items, ∀ k : ItemRecord, ∃ x ∈ (s.putItem k).items, x.id = j'.id := by
    intro j' hj' k
    by_cases he : j'.id = k.id
    · exact ⟨k, mem_putItem_self hj' he.symm, he.symm⟩
    · exact ⟨j', mem_putItem hj' he, rfl⟩
  cases h with
  | @merge m hm hv hq hall =>
      obtain ⟨hmm, hmi, hma, hmd⟩ := mergeTarget_some hm
      have hk : m.mergeKey = i.mergeKey := mergeTarget_key hm
      have hji : j.id = i.id := by
        by_contra hne
        obtain ⟨x, hx, hid⟩ := hput j hj (m.holding (m.quantity.add quantity) timestamp)
        exact hgone x (List.mem_filter.mpr ⟨hx, by simpa [hid] using hne⟩) hid
      exact ⟨eq_of_key_eq hu.items hj hi hji, hall.symm, m.id, hmi,
        m.holding (m.quantity.add quantity) timestamp,
        List.mem_filter.mpr ⟨mem_putItem_self hmm rfl, decide_eq_true hmi⟩, rfl, hk, hmd, hma⟩
  | @mergePart m hm =>
      obtain ⟨x, hx, hid⟩ := hput j hj (m.holding (m.quantity.add quantity) timestamp)
      by_cases he : j.id = i.id
      · exact absurd he.symm (hgone (i.holding (i.quantity.sub quantity) timestamp)
          (mem_putItem_self hx (he.symm.trans hid.symm)))
      · exact absurd hid (hgone x (mem_putItem hx (fun h => he (hid.symm.trans h))))
  | relocate =>
      obtain ⟨x, hx, hid⟩ := hput j hj { i with
        locationId := destinationId
        order := destinationOrder s destinationId
        updatedAt := timestamp
        version := i.version + 1 }
      exact absurd hid (hgone x hx)
  | split =>
      obtain ⟨x, hx, hid⟩ := hput j hj (i.holding (i.quantity.sub quantity) timestamp)
      exact absurd hid (hgone x (List.mem_append_left _ hx))

/-- The quantities of the active items are in a group of numbers. -/
def Counts (G : AddSubgroup ℚ) (items : List ItemRecord) : Prop :=
  ∀ i ∈ items, i.active = true → i.quantity.exact ∈ G

section Counts

variable {G : AddSubgroup ℚ} {j : ItemRecord}

omit [Host] in

/-- An item replaced by one on the grid stays on it. -/
theorem Counts.putItem (h : Counts G s.items) (hj : j.quantity.exact ∈ G) :
    Counts G (s.putItem j).items := by
  intro x hx hact
  rcases mem_replaceKey.mp hx with ⟨hx, -⟩ | ⟨rfl, -⟩
  · exact h x hx hact
  · exact hj

omit [Host] in
theorem Counts.dropItem (h : Counts G s.items) (id : String) : Counts G (s.dropItem id).items :=
  fun x hx hact => h x (List.mem_filter.mp hx).1 hact

omit [Host] in
theorem Counts.addItem (h : Counts G s.items) (hj : j.quantity.exact ∈ G) :
    Counts G (s.addItem j).items := by
  intro x hx hact
  rcases List.mem_append.mp hx with hx | hx
  · exact h x hx hact
  · rw [List.mem_singleton.mp hx]
    exact hj

/-- A quantity after a move is one from before, the one that moves, or their sum or
    difference. -/
theorem Transfer.counts (hw : WellFormed s) (hr : InRange s) (hi : i ∈ s.items)
    (hact : i.active = true) (h : Transfer s destinationId timestamp i quantity t)
    (hs : Counts G s.items) (hq : quantity.exact ∈ G) : Counts G t.items := by
  have hiq := hw.quantities i hi
  have hhere := hs i hi hact
  cases h with
  | @merge m hm hv hsum hall =>
      subst hall
      obtain ⟨hmm, -, hma, -⟩ := mergeTarget_some hm
      refine (hs.putItem ?_).dropItem i.id
      rw [exact_merged hw hr hi hact hm hiq.1 (JsNumber.exact_pos hiq.1 hiq.2) (le_refl _)]
      exact G.add_mem (hs m hmm hma) hq
  | @mergePart m hm hv hvi hsum hf hp hlt =>
      obtain ⟨hmm, -, hma, -⟩ := mergeTarget_some hm
      refine (hs.putItem ?_).putItem ?_
      · rw [exact_merged hw hr hi hact hm hf (JsNumber.exact_pos hf hp)
          (JsNumber.exact_lt hf hiq.1 (hlt hiq.1)).le]
        exact G.add_mem (hs m hmm hma) hq
      · rw [JsNumber.exact_sub hiq.1 hf hp (hlt hiq.1)]
        exact G.sub_mem hhere hq
  | relocate => exact hs.putItem hhere
  | split hnew hvi hf hp hlt =>
      refine (hs.putItem ?_).addItem hq
      rw [JsNumber.exact_sub hiq.1 hf hp (hlt hiq.1)]
      exact G.sub_mem hhere hq

end Counts

/-! ## 5. What a moving command moves -/

/-- **Moving conserves.** Quantities of items go to the destination: on every scale the change
    is theirs; records of other kinds stay as they are; a record is gone only when all of it
    went, into another record of its kind there; and quantities stay in every group of numbers
    that holds them and what is moved. -/
structure Conserves (s : WorkspaceState) (destinationId : String)
    (moved : List (ItemRecord × JsNumber)) (items : List ItemRecord) : Prop where
  weighs : ∀ w, Stowplan.weigh w items = Stowplan.weigh w s.items +
    tally (fun p => p.2.exact * (w p.1.mergeKey destinationId - w p.1.mergeKey p.1.locationId))
      moved
  keeps : ∀ j ∈ s.items, (∀ p ∈ moved, p.1.mergeKey ≠ j.mergeKey) → j ∈ items
  stays : ∀ id kind, Lies s.items id kind destinationId → Lies items id kind destinationId
  gone : ∀ j ∈ s.items, (∀ x ∈ items, x.id ≠ j.id) → (j, j.quantity) ∈ moved ∧
    ∃ id, id ≠ j.id ∧ Lies items id j.mergeKey destinationId
  counts : ∀ G : AddSubgroup ℚ, Counts G s.items → (∀ p ∈ moved, p.2.exact ∈ G) → Counts G items

theorem Conserves.nothing (s : WorkspaceState) (destinationId : String) :
    Conserves s destinationId [] s.items :=
  ⟨fun _ => (add_zero _).symm, fun _ hj _ => hj, fun _ _ h => h,
    fun j hj hgone => absurd rfl (hgone j hj), fun _ h _ => h⟩

/-- The order in which items are named does not matter. -/
theorem Conserves.perm {moved moved' : List (ItemRecord × JsNumber)} {items : List ItemRecord}
    (h : Conserves s destinationId moved items) (hp : moved.Perm moved') :
    Conserves s destinationId moved' items :=
  ⟨fun w => by rw [h.weighs w, tally_perm hp],
    fun j hj hk => h.keeps j hj fun p hpm => hk p (hp.mem_iff.mp hpm),
    h.stays,
    fun j hj hgone => (h.gone j hj hgone).imp (fun hm => hp.mem_iff.mp hm) id,
    fun G hs hq => h.counts G hs fun p hpm => hq p (hp.mem_iff.mp hpm)⟩

/-- A transfer of one item takes its quantity from where it was and adds it at the destination. -/
theorem Transfer.conserves (hw : WellFormed s) (hr : InRange s) (hi : findItem s i.id = some i)
    (hact : i.active = true) (haway : i.locationId ≠ destinationId)
    (h : Transfer s destinationId timestamp i quantity t) :
    Conserves s destinationId [(i, quantity)] t.items := by
  have him := (findItem_mem hi).1
  refine ⟨fun w => ?_, fun j hj hk => ?_, fun id kind hl => h.stays him hw.unique haway hl,
    fun j hj hgone => ?_, fun G hs hq =>
      h.counts hw hr him hact hs (hq (i, quantity) (List.mem_singleton_self _))⟩
  · rw [h.weigh hw hr hi hact w, tally_singleton]
  · exact h.keeps him hw.unique hj (hk (i, quantity) (List.mem_singleton_self _))
  · obtain ⟨rfl, rfl, hex⟩ := h.gone him hw.unique hj hgone
    exact ⟨List.mem_singleton_self _, hex⟩

/-- What is moved has the same weight wherever it is, if the scale does not look at locations;
    so there is no more or less of any kind. -/
theorem Conserves.total {moved : List (ItemRecord × JsNumber)} {items : List ItemRecord}
    (h : Conserves s destinationId moved items) (kind : MergeKey) :
    Stowplan.total items kind = Stowplan.total s.items kind := by
  unfold Stowplan.total
  rw [h.weighs, tally_zero, add_zero]
  intro p _
  rw [sub_self, mul_zero]

/-- **Several items, one after another.** -/
theorem Transfers.conserves {is : List ItemRecord} (hw : WellFormed s) (hr : InRange s)
    (hd : ActiveAt s destinationId) (h : Transfers destinationId timestamp s is t) :
    Conserves s destinationId (is.map fun i => (i, i.quantity)) t.items := by
  induction h with
  | nil s => exact .nothing s destinationId
  | @cons s t u i is hi hact haway h rest ih =>
      have him := (findItem_mem hi).1
      have hone := h.conserves hw hr hi hact haway
      have hdt : ActiveAt t destinationId := by
        rw [h.moveItem.frame]
        exact hd
      have hrt : InRange t := fun kind => (hone.total kind).trans_le (hr kind)
      have hmore := ih (h.moveItem.wellFormed hw hi hd) hrt hdt
      refine ⟨fun w => ?_, fun j hj hk => ?_, fun id kind hl => hmore.stays id kind
        (hone.stays id kind hl), fun j hj hgone => ?_, fun G hs hq => hmore.counts G
          (hone.counts G hs fun p hp => ?_) fun p hp => hq p (List.mem_cons_of_mem _ hp)⟩
      · rw [hmore.weighs w, hone.weighs w, List.map_cons, tally_singleton, tally_cons, add_assoc]
      · have hkeep := hone.keeps j hj fun p hp => by
          rw [List.mem_singleton.mp hp]
          exact hk (i, i.quantity) List.mem_cons_self
        exact hmore.keeps j hkeep fun p hp => hk p (List.mem_cons_of_mem _ hp)
      · by_cases hgone' : ∀ x ∈ t.items, x.id ≠ j.id
        · obtain ⟨hmem, id, hid, hl⟩ := hone.gone j hj hgone'
          exact ⟨List.mem_cons.mpr (.inl (List.mem_singleton.mp hmem)), id, hid,
            hmore.stays id _ hl⟩
        · obtain ⟨x, hx, hxj⟩ : ∃ x ∈ t.items, x.id = j.id := by simpa using hgone'
          obtain ⟨hmem, id, hid, hl⟩ := hmore.gone x hx fun y hy => hxj ▸ hgone y hy
          -- what a later move takes as a whole is still as it was before the first
          obtain ⟨y, hy, hxy⟩ := List.mem_map.mp hmem
          obtain rfl : y = x := congrArg Prod.fst hxy
          obtain ⟨-, -, hyaway⟩ := rest.mem hy
          obtain rfl := eq_of_key_eq hw.unique.items (h.away hx hyaway) hj hxj
          exact ⟨List.mem_cons_of_mem _ hmem, id, hid, hl⟩
      · rw [List.mem_singleton.mp hp]
        exact hq (i, i.quantity) List.mem_cons_self

/-! ## 6. Commands that move -/

omit [Host] in
/-- The step of a plan that a command completes. -/
def completedStep (s : WorkspaceState) (planId stepId : String) : Option PlanStep :=
  (findPlan s planId).bind fun plan => findKey PlanStep.id stepId plan.steps

/-- The commands that take items from one location to another. -/
def Command.moves : Command → Bool
  | .itemMove _ _ _ _ | .itemBulkMove _ _ _ | .planStepComplete _ _ => true
  | _ => false

/-- Where a moving command takes items to. -/
def Command.movedTo (s : WorkspaceState) : Command → String
  | .itemMove destinationId _ _ _ => destinationId
  | .itemBulkMove destinationId _ _ => destinationId
  | .planStepComplete planId stepId =>
      ((completedStep s planId stepId).map (·.destinationId)).getD ""
  | _ => ""

/-- The items a moving command takes there, and how much of each: a quantity of one, all of
    those selected that are not there yet, or all of the one that a step of a plan is about. -/
def Command.moved (s : WorkspaceState) : Command → List (ItemRecord × JsNumber)
  | .itemMove _ id quantity _ => ((findItem s id).map fun i => (i, quantity)).toList
  | .itemBulkMove destinationId itemIds _ =>
      (s.items.filter fun i => itemIds.contains i.id && i.locationId != destinationId).map
        fun i => (i, i.quantity)
  | .planStepComplete planId stepId =>
      (((completedStep s planId stepId).bind fun step =>
        if step.type = .item then step.itemId.bind (findItem s) else none).map
          fun i => (i, i.quantity)).toList
  | _ => []

/-- So does `item.move`. -/
theorem itemMove_conserves {env : CommandEnvelope} {change : Change} {u : WorkspaceState}
    {id : String} {reopen : Bool} (hw : WellFormed s) (hr : InRange s)
    (h : itemMove s env destinationId id quantity reopen = .ok change)
    (hu : Describes s change.patches u) :
    Conserves s destinationId (Command.moved s (.itemMove destinationId id quantity reopen))
      u.items := by
  obtain ⟨i, t, v, hi, hact, haway, -, hmove, hv, -, hitems⟩ := itemMove_transfer hw.unique.records h
  obtain rfl : u = v := Except.ok.inj ((applyPatches_of_describes hw.unique hu).symm.trans
    (applyPatches_of_describes hw.unique (hv.described hw.tidy)))
  simp only [Command.moved, hi, Option.map_some, Option.toList_some]
  rw [hitems]
  exact hmove.conserves hw hr ((findItem_mem hi).2.symm ▸ hi) hact haway

/-- So does `item.bulkMove`, for each item. -/
theorem itemBulkMove_conserves {env : CommandEnvelope} {change : Change} {u : WorkspaceState}
    {itemIds : List String} {reopen : Bool} (hw : WellFormed s) (hr : InRange s)
    (h : itemBulkMove s env destinationId itemIds reopen = .ok change)
    (hu : Describes s change.patches u) :
    Conserves s destinationId (Command.moved s (.itemBulkMove destinationId itemIds reopen))
      u.items := by
  have hd : ActiveAt s destinationId := by
    simp only [itemBulkMove, result_bind_ok, requireActiveLocation_ok] at h
    obtain ⟨_, _, l, hl, -⟩ := h
    exact ⟨l, hl⟩
  obtain ⟨is, t, v, his, hn, hmoves, hv, -, hitems⟩ := itemBulkMove_transfers hw.unique.records h
  obtain rfl : u = v := Except.ok.inj ((applyPatches_of_describes hw.unique hu).symm.trans
    (applyPatches_of_describes hw.unique (hv.described hw.tidy)))
  rw [hitems]
  refine (hmoves.conserves hw hr hd).perm (List.Perm.map _ ?_)
  refine (List.perm_ext_iff_of_nodup hn.of_map (hw.unique.items.of_map.filter _)).mpr fun i => ?_
  rw [his, List.mem_filter]
  simp

/-- So does a step of a plan; that of a container takes nothing anywhere. -/
theorem planStepComplete_conserves {env : CommandEnvelope} {change : Change}
    {u : WorkspaceState} {planId stepId : String} (hw : WellFormed s) (hr : InRange s)
    (h : planStepComplete s env planId stepId = .ok change)
    (hu : Describes s change.patches u) :
    Conserves s (Command.movedTo s (.planStepComplete planId stepId))
      (Command.moved s (.planStepComplete planId stepId)) u.items := by
  obtain ⟨p, step, physical, rfl, rfl, hc, hphysical, hall⟩ := planStepComplete_ok h
  have hstep : completedStep s p.id step.id = some step := by
    unfold completedStep
    rw [hc.found]
    exact hc.stepFound
  -- the plan's own patches leave the items as the physical ones made them
  have hafter : ∀ {v : WorkspaceState}, Describes s physical v → v.plans = s.plans →
      u.items = v.items := by
    intro v hv hplans
    have hfound : findPlan v p.id = some p := by
      unfold findPlan
      rw [hplans]
      exact hc.found
    have hboth := hv.append (describes_completion (unique_of_describes hw.unique hv).plans hfound step
      env.timestamp)
    rw [hall] at hu
    obtain rfl : v.putPlan (p.complete step env.timestamp) = u :=
      Except.ok.inj ((applyPatches_of_describes hw.unique hboth).symm.trans
        (applyPatches_of_describes hw.unique hu))
    rfl
  simp only [Command.movedTo, Command.moved, hstep, Option.map_some, Option.getD_some,
    Option.bind_some]
  cases htype : step.type with
  | item =>
      obtain ⟨i, v, ids, hid, hi, hact, -, -, -, haway, hmove, -, hd⟩ :=
        stepPatches_item hw.unique.records htype hphysical
      have hplans : (v.setProgress ids env.timestamp).plans = s.plans := by
        show v.plans = s.plans
        rw [hmove.moveItem.frame]
      have hitems : u.items = v.items := (hafter (hd.described hw.tidy) hplans).trans rfl
      rw [hitems, if_pos rfl, hid, Option.bind_some, hi]
      exact hmove.conserves hw hr hi hact haway
  | location =>
      obtain ⟨l, m, ids, -, -, -, -, -, -, hd⟩ := stepPatches_location hw htype hphysical
      rw [hafter hd rfl, if_neg (by decide)]
      exact .nothing s _

/-- A command that is no replay, accepted: what it found and what it leaves of the items. -/
theorem normal_of_accepted {env : CommandEnvelope} {r : CommandResult} (hw : WellFormed s)
    (hn : env.command.isHistory = false) (h : applyCommand s env = .ok r) :
    ∃ change u, normalPatches s (normalizeCommandEnvelope env) = .ok change ∧
      Describes s change.patches u ∧ r.state.items = u.items := by
  obtain ⟨-, ⟨-, h⟩ | ⟨hh, -⟩⟩ := applyCommand_ok h
  · obtain ⟨change, u, hchange, hdesc, -, he⟩ := applyNormalCommand_ok hw h
    exact ⟨change, u, hchange, hdesc, by rw [he]⟩
  · rw [hn] at hh
    cases hh

/-- So does every accepted command that moves. -/
theorem conserves_of_accepted {env : CommandEnvelope} {r : CommandResult} (hw : WellFormed s)
    (hr : InRange s) (hm : env.command.moves = true) (h : applyCommand s env = .ok r) :
    Conserves s (env.command.movedTo s) (env.command.moved s) r.state.items := by
  have hn : env.command.isHistory = false := by
    cases hc : env.command <;> rw [hc] at hm <;> first | rfl | cases hm
  obtain ⟨change, u, hchange, hu, hitems⟩ := normal_of_accepted hw hn h
  rw [hitems]
  unfold normalPatches at hchange
  cases hc : env.command with
  | itemMove destinationId id quantity reopen =>
      rw [show (normalizeCommandEnvelope env).command = _ from hc] at hchange
      exact itemMove_conserves hw hr hchange hu
  | itemBulkMove destinationId itemIds reopen =>
      rw [show (normalizeCommandEnvelope env).command = _ from hc] at hchange
      exact itemBulkMove_conserves hw hr hchange hu
  | planStepComplete planId stepId =>
      rw [show (normalizeCommandEnvelope env).command = _ from hc] at hchange
      exact planStepComplete_conserves hw hr hchange hu
  | _ => rw [hc] at hm; cases hm

/-- How much of a kind is moved, and how much of it from a location. -/
def amountMoved (moved : List (ItemRecord × JsNumber)) (kind : MergeKey) : ℚ :=
  tally (fun p => if p.1.mergeKey = kind then p.2.exact else 0) moved

/-- How much of a kind a step takes from a place. -/
def amountTaken (moved : List (ItemRecord × JsNumber)) (kind : MergeKey)
    (locationId : String) : ℚ :=
  tally (fun p => if p.1.mergeKey = kind ∧ p.1.locationId = locationId then p.2.exact else 0)
    moved

/-- What a kind has at a place afterwards. -/
theorem Conserves.stock {moved : List (ItemRecord × JsNumber)} {items : List ItemRecord}
    (h : Conserves s destinationId moved items) (kind : MergeKey) (locationId : String) :
    Stowplan.stock items kind locationId = Stowplan.stock s.items kind locationId +
      (if locationId = destinationId then amountMoved moved kind else 0) -
      amountTaken moved kind locationId := by
  unfold Stowplan.stock
  rw [h.weighs, add_sub_assoc]
  refine congrArg (_ + ·) ?_
  have hin : (if locationId = destinationId then amountMoved moved kind else 0) =
      tally (fun p : ItemRecord × JsNumber =>
        if p.1.mergeKey = kind ∧ destinationId = locationId then p.2.exact else 0) moved := by
    by_cases hl : locationId = destinationId
    · rw [if_pos hl]
      exact tally_congr fun p _ => by simp [hl]
    · rw [if_neg hl, tally_zero]
      intro p _
      rw [if_neg]
      exact fun hp => hl hp.2.symm
  rw [hin]
  unfold amountTaken
  rw [← tally_sub]
  refine tally_congr fun p _ => ?_
  split <;> split <;> ring

/-- **Moving things conserves them.** Let `item.move`, `item.bulkMove` or `plan.step.complete` be
    accepted. Then, for items of each kind that the merge rule tells apart,

    * there is as much of the kind as before, in all;
    * the destination has gained what was moved of the kind, and each location lost what was
      taken from it;
    * items of kinds that were not moved are the same records as before;
    * a record is gone only if it was moved as a whole, and then another record of its kind, at
      the destination, has taken it in. -/
theorem moves_conserve (s : WorkspaceState) (env : CommandEnvelope) (r : CommandResult)
    (hw : WellFormed s) (hr : InRange s) (hm : env.command.moves = true)
    (h : applyCommand s env = .ok r) :
    let moved := env.command.moved s
    let destinationId := env.command.movedTo s
    (∀ kind, total r.state.items kind = total s.items kind) ∧
    (∀ kind locationId, stock r.state.items kind locationId = stock s.items kind locationId +
      (if locationId = destinationId then amountMoved moved kind else 0) -
      amountTaken moved kind locationId) ∧
    (∀ j ∈ s.items, (∀ p ∈ moved, p.1.mergeKey ≠ j.mergeKey) → j ∈ r.state.items) ∧
    ∀ j ∈ s.items, (∀ x ∈ r.state.items, x.id ≠ j.id) → (j, j.quantity) ∈ moved ∧
      ∃ id, id ≠ j.id ∧ Lies r.state.items id j.mergeKey destinationId := by
  have hc := conserves_of_accepted hw hr hm h
  exact ⟨hc.total, hc.stock, hc.keeps, hc.gone⟩

/-- Quantities are whole multiples of `2 ^ e`, and no kind adds up to more than `2 ^ 53` of
    them: what doubles of one exponent count without rounding. -/
structure OnGrid (e : Int) (s : WorkspaceState) : Prop where
  counts : Counts (AddSubgroup.zmultiples ((2 : ℚ) ^ e)) s.items
  totals : ∀ kind, total s.items kind ≤ 2 ^ 53 * 2 ^ e

/-- Multiples of a power of two within the precision are in the range. -/
theorem OnGrid.inRange {e : Int} (hg : OnGrid e s) (he : e ≤ 970) : InRange s := by
  intro kind
  have hscale : (2 : ℚ) ^ e ≤ 2 ^ (970 : Int) := zpow_le_zpow_right₀ (by norm_num) he
  have hmax : (2 ^ 53 : ℚ) * 2 ^ (970 : Int) ≤ JsNumber.maxValue := by decide +kernel
  exact (hg.totals kind).trans (le_trans (by gcongr) hmax)

/-- Each quantity is a double. -/
theorem OnGrid.isDouble {e : Int} (hg : OnGrid e s) (hw : WellFormed s) (hlow : -1074 ≤ e)
    (hhigh : e ≤ 970) (hi : i ∈ s.items) (hact : i.active = true) :
    IsDouble i.quantity.exact := by
  obtain ⟨n, hn⟩ := AddSubgroup.mem_zmultiples_iff.mp (hg.counts i hi hact)
  rw [zsmul_eq_mul] at hn
  have hunit : (0 : ℚ) < 2 ^ e := zpow_pos (by norm_num) e
  have hpos : (0 : ℚ) < n * 2 ^ e :=
    hn ▸ JsNumber.exact_pos (hw.quantities i hi).1 (hw.quantities i hi).2
  have hle : (n : ℚ) * 2 ^ e ≤ 2 ^ 53 * 2 ^ e :=
    hn ▸ (quantity_le_total hw hi hact).trans (hg.totals i.mergeKey)
  have hn0 : 0 < n := Int.cast_pos.mp (pos_of_mul_pos_left hpos hunit.le)
  have hn1 : (n : ℚ) ≤ 2 ^ 53 := le_of_mul_le_mul_right hle hunit
  rw [← hn]
  refine isDouble_of_multiple hlow hhigh ?_
  rw [abs_of_pos hn0]
  exact_mod_cast hn1

/-- **On the grid nothing is rounded.** A moving command that takes multiples of `2 ^ e` leaves
    multiples of it, so whatever it added or subtracted is a double. -/
theorem moves_onGrid (s : WorkspaceState) (env : CommandEnvelope) (r : CommandResult) (e : Int)
    (hw : WellFormed s) (he : e ≤ 970) (hg : OnGrid e s) (hm : env.command.moves = true)
    (hq : ∀ p ∈ env.command.moved s, p.2.exact ∈ AddSubgroup.zmultiples ((2 : ℚ) ^ e))
    (h : applyCommand s env = .ok r) : OnGrid e r.state := by
  have hc := conserves_of_accepted hw (hg.inRange he) hm h
  exact ⟨hc.counts _ hg.counts hq, fun kind => (hc.total kind).trans_le (hg.totals kind)⟩

/-! ## 7. Commands no scale feels -/

omit [Host] in
/-- The patch leaves what items weigh: it is about another kind of record, or about the order
    or the bookkeeping of an item. -/
def FieldPatch.light (p : FieldPatch) : Bool :=
  p.target != .item || ["order", "updatedAt", "version"].contains p.path

/-- The commands that only arrange: names, locations, captures, plans and the order of items. -/
def Command.arranges : Command → Bool
  | .workspaceRename _ | .locationCreate _ | .locationUpdate _ _ _ | .locationMove _ _ _ _
  | .locationReorder _ _ | .locationArchive _ _ | .captureStatus _ _ | .itemReorder _ _
  | .planCreate _ | .planStatus _ _ => true
  | _ => false

omit [Host] in
theorem light_other {target : PatchTarget} {id path : String} {before after : JsValue}
    (h : target ≠ .item) : (patch target id path before after).light = true := by
  simp [FieldPatch.light, patch, h]

omit [Host] in

/-- Patches without a weight, one after another. -/
theorem light_append {ps qs : List FieldPatch} (hp : ∀ p ∈ ps, p.light = true)
    (hq : ∀ p ∈ qs, p.light = true) : ∀ p ∈ ps ++ qs, p.light = true := by
  intro p h
  rcases List.mem_append.mp h with h | h
  · exact hp p h
  · exact hq p h

omit [Host] in
theorem light_nil : ∀ p ∈ ([] : List FieldPatch), p.light = true :=
  fun _ h => absurd h List.not_mem_nil

omit [Host] in
theorem light_cons {p : FieldPatch} {ps : List FieldPatch} (hp : p.light = true)
    (hps : ∀ q ∈ ps, q.light = true) : ∀ q ∈ p :: ps, q.light = true := by
  intro q h
  rcases List.mem_cons.mp h with rfl | h
  · exact hp
  · exact hps q h

omit [Host] in
theorem light_discards (plans : List MovePlan) : ∀ p ∈ plans.map discardPatch,
    p.light = true := by
  intro p h
  obtain ⟨q, -, rfl⟩ := List.mem_map.mp h
  exact light_other (by decide)

omit [Host] in
theorem light_progress (l : Location) (timestamp : String) :
    ∀ p ∈ progressPatches l timestamp, p.light = true :=
  light_cons (light_other (by decide)) (light_cons (light_other (by decide)) light_nil)

omit [Host] in

/-- Spaces in progress have no weight. -/
theorem light_captureProgress {locationId : String} {patches : List FieldPatch}
    (h : captureProgressPatches s locationId timestamp = .ok patches) :
    ∀ p ∈ patches, p.light = true := by
  simp only [captureProgressPatches, result_bind_ok, result_pure_ok] at h
  obtain ⟨l, -, rfl⟩ := h
  split
  · exact light_nil
  · exact light_progress l timestamp

omit [Host] in
theorem light_progressEach {should : Location → Bool} {ids : List String}
    {patches : List FieldPatch} (h : progressEach s timestamp should ids = .ok patches) :
    ∀ p ∈ patches, p.light = true := by
  induction ids generalizing patches with
  | nil =>
      cases h
      exact light_nil
  | cons id ids ih =>
      simp only [progressEach, result_bind_ok, result_pure_ok] at h
      obtain ⟨l, -, rest, hrest, rfl⟩ := h
      refine light_append ?_ (ih hrest)
      split
      · exact light_progress l timestamp
      · exact light_nil

variable {env : CommandEnvelope} {change : Change}

omit [Host] in
theorem light_parentProgress {source destination : Option String} {reopen : Bool}
    {patches : List FieldPatch}
    (h : parentProgress s env source destination reopen = .ok patches) :
    ∀ p ∈ patches, p.light = true := by
  unfold parentProgress at h
  split at h
  · exact light_progressEach h
  · split at h
    · exact light_captureProgress h
    · cases h
      exact light_nil

/-- **An arranging command makes no patch a scale feels.** -/
theorem light_of_arranges (hc : env.command.arranges = true)
    (h : normalPatches s env = .ok change) : ∀ p ∈ change.patches, p.light = true := by
  unfold normalPatches at h
  cases hcommand : env.command with
  | workspaceRename name =>
      rw [hcommand] at h
      simp only [workspaceRename, result_bind_ok, result_pure_ok] at h
      obtain ⟨_, _, _, _, rfl⟩ := h
      exact light_cons (light_other (by decide)) light_nil
  | locationCreate location =>
      rw [hcommand] at h
      simp only [locationCreate, result_bind_ok, result_pure_ok] at h
      obtain ⟨_, _, _, _, progress, hprogress, rfl⟩ := h
      refine light_append (light_append ?_ (light_cons (light_other (by decide)) light_nil)) ?_
      · split
        · exact light_discards _
        · exact light_nil
      · split at hprogress
        · exact light_captureProgress hprogress
        · cases hprogress
          exact light_nil
  | locationUpdate id changes reopen =>
      rw [hcommand] at h
      simp only [locationUpdate, result_bind_ok, result_pure_ok] at h
      obtain ⟨l, -, _, _, _, _, _, _, _, _, progress, hprogress, _, _, rfl⟩ := h
      have hp : ∀ p ∈ progress, p.light = true := by
        split at hprogress
        · exact light_parentProgress hprogress
        · cases hprogress
          exact light_nil
      refine light_append (light_append (light_append ?_
        (light_cons (light_other (by decide)) light_nil)) ?_) ?_
      · intro p hmem
        obtain ⟨e, -, rfl⟩ := List.mem_map.mp hmem
        exact light_other (by decide)
      · split
        · exact light_discards _
        · exact light_nil
      · split
        · exact hp
        · exact light_nil
  | locationMove id parentId order reopen =>
      rw [hcommand] at h
      simp only [locationMove, result_bind_ok, result_pure_ok] at h
      obtain ⟨l, -, _, _, _, _, _, _, _, _, _, _, _, _, progress, hprogress, rfl⟩ := h
      have hp : ∀ p ∈ progress, p.light = true := by
        split at hprogress
        · exact light_parentProgress hprogress
        · cases hprogress
          exact light_nil
      refine light_append (light_append (light_append ?_
        (light_cons (light_other (by decide)) light_nil)) ?_) hp
      · split
        · exact light_cons (light_other (by decide)) (light_discards _)
        · exact light_nil
      · split
        · exact light_cons (light_other (by decide)) light_nil
        · exact light_nil
  | locationReorder id order =>
      rw [hcommand] at h
      simp only [locationReorder, result_bind_ok, result_pure_ok] at h
      obtain ⟨l, -, _, _, _, _, rfl⟩ := h
      exact light_cons (light_other (by decide)) (light_cons (light_other (by decide)) light_nil)
  | locationArchive id archived =>
      rw [hcommand] at h
      simp only [locationArchive, result_bind_ok, result_pure_ok] at h
      obtain ⟨l, -, _, _, _, _, _, _, _, _, progress, hprogress, rfl⟩ := h
      refine light_append (light_append (light_cons (light_other (by decide))
        (light_cons (light_other (by decide)) light_nil)) (light_discards _)) ?_
      split at hprogress
      · exact light_captureProgress hprogress
      · cases hprogress
        exact light_nil
  | captureStatus id status =>
      rw [hcommand] at h
      simp only [captureStatus, result_bind_ok, result_pure_ok] at h
      obtain ⟨l, -, _, _, _, _, _, _, rfl⟩ := h
      exact light_append (light_discards _) (light_cons (light_other (by decide))
        (light_cons (light_other (by decide)) light_nil))
  | itemReorder id order =>
      rw [hcommand] at h
      simp only [itemReorder, result_bind_ok, result_pure_ok] at h
      obtain ⟨i, -, _, _, _, _, _, _, version, -, rfl⟩ := h
      exact light_cons (by simp [FieldPatch.light, patch]) (light_cons
        (by simp [FieldPatch.light, patch]) (light_cons (by simp [FieldPatch.light, patch])
          light_nil))
  | planCreate plan =>
      rw [hcommand] at h
      simp only [planCreate, result_bind_ok, result_pure_ok] at h
      obtain ⟨_, _, _, _, _, _, _, _, _, _, _, _, rfl⟩ := h
      exact light_append (light_discards _) (light_cons (light_other (by decide)) light_nil)
  | planStatus planId status =>
      rw [hcommand] at h
      simp only [planStatus, result_bind_ok, result_pure_ok] at h
      obtain ⟨p, -, _, _, _, _, _, _, _, _, _, _, rfl⟩ := h
      exact light_cons (light_other (by decide)) light_nil
  | _ => rw [hcommand] at hc; cases hc

/-- Setting the order or the bookkeeping of an item leaves its weight. -/
theorem weight_put {e : ItemEntry} (he : ["order", "updatedAt", "version"].contains e.key = true)
    (w : MergeKey → String → ℚ) (i : ItemRecord) : (e.put i).weight w = i.weight w := by
  cases e with
  | order v => rfl
  | updatedAt v => rfl
  | version v => rfl
  | constraint c => cases c <;> revert he <;> simp [ItemEntry.key, ConstraintEntry.key]
  | _ => simp [ItemEntry.key] at he

/-- A patch without a weight changes no weight. -/
theorem Edited.weigh {p : FieldPatch} (h : Edited s p t) (hp : p.light = true)
    (w : MergeKey → String → ℚ) : Stowplan.weigh w t.items = Stowplan.weigh w s.items := by
  cases h with
  | @item i e hi =>
      have he : ["order", "updatedAt", "version"].contains e.key = true := by
        simpa [FieldPatch.light, patch] using hp
      show tally _ (s.items.map _) = tally _ s.items
      rw [tally_map]
      refine tally_congr fun j _ => ?_
      split
      · exact weight_put he w j
      · rfl
  | addItem i hi => simp [FieldPatch.light, patch] at hp
  | dropItem i hi => simp [FieldPatch.light, patch] at hp
  | _ => rfl

/-- So do several. -/
theorem Describes.weigh {ps : List FieldPatch} (h : Describes s ps t)
    (hp : ∀ p ∈ ps, p.light = true) (w : MergeKey → String → ℚ) :
    Stowplan.weigh w t.items = Stowplan.weigh w s.items := by
  induction h with
  | nil s => rfl
  | cons he _ ih =>
      rw [ih fun p h => hp p (List.mem_cons_of_mem _ h), he.weigh (hp _ List.mem_cons_self) w]

omit [Host] in
theorem quantity_put {e : ItemEntry} (he : ["order", "updatedAt", "version"].contains e.key = true)
    (i : ItemRecord) : (e.put i).quantity = i.quantity ∧ (e.put i).active = i.active := by
  cases e with
  | order v => exact ⟨rfl, rfl⟩
  | updatedAt v => exact ⟨rfl, rfl⟩
  | version v => exact ⟨rfl, rfl⟩
  | constraint c => cases c <;> revert he <;> simp [ItemEntry.key, ConstraintEntry.key]
  | _ => simp [ItemEntry.key] at he

omit [Host] in
theorem Edited.counts {p : FieldPatch} {G : AddSubgroup ℚ} (h : Edited s p t)
    (hp : p.light = true) (hs : Counts G s.items) : Counts G t.items := by
  cases h with
  | @item i e hi =>
      have he : ["order", "updatedAt", "version"].contains e.key = true := by
        simpa [FieldPatch.light, patch] using hp
      intro x hx hact
      obtain ⟨j, hj, rfl⟩ := List.mem_map.mp hx
      by_cases hid : j.id = i.id
      · rw [if_pos hid] at hact ⊢
        obtain ⟨hquantity, hactive⟩ := quantity_put he j
        rw [hquantity]
        exact hs j hj (hactive ▸ hact)
      · rw [if_neg hid] at hact ⊢
        exact hs j hj hact
  | addItem i hi => simp [FieldPatch.light, patch] at hp
  | dropItem i hi => simp [FieldPatch.light, patch] at hp
  | _ => exact hs

omit [Host] in
theorem Describes.counts {ps : List FieldPatch} {G : AddSubgroup ℚ} (h : Describes s ps t)
    (hp : ∀ p ∈ ps, p.light = true) (hs : Counts G s.items) : Counts G t.items := by
  induction h with
  | nil s => exact hs
  | cons he _ ih =>
      exact ih (fun p h => hp p (List.mem_cons_of_mem _ h)) (he.counts (hp _ List.mem_cons_self) hs)

/-! ## 8. Over a run -/

/-- A command is accepted that arranges things, or moves multiples of `2 ^ e`. -/
def Rearranges (e : Int) (s t : WorkspaceState) : Prop :=
  ∃ env r, (env.command.moves = true ∧
      (∀ p ∈ env.command.moved s, p.2.exact ∈ AddSubgroup.zmultiples ((2 : ℚ) ^ e)) ∨
    env.command.arranges = true) ∧ applyCommand s env = .ok r ∧ r.state = t

/-- One such command leaves how much there is of each kind, and quantities on the grid. -/
theorem Rearranges.onGrid {e : Int} (hw : WellFormed s) (he : e ≤ 970) (hg : OnGrid e s)
    (h : Rearranges e s t) :
    (∀ kind, Stowplan.total t.items kind = Stowplan.total s.items kind) ∧ OnGrid e t := by
  obtain ⟨env, r, ⟨hm, hq⟩ | hcommand, h, rfl⟩ := h
  · exact ⟨(conserves_of_accepted hw (hg.inRange he) hm h).total,
      moves_onGrid s env r e hw he hg hm hq h⟩
  · have hn : env.command.isHistory = false := by
      cases hc : env.command <;> rw [hc] at hcommand <;> first | rfl | cases hcommand
    obtain ⟨change, u, hchange, hu, hitems⟩ := normal_of_accepted hw hn h
    have harranges : (normalizeCommandEnvelope env).command.arranges = true := hcommand
    have hlight := light_of_arranges harranges hchange
    have htotal : ∀ kind, Stowplan.total r.state.items kind = Stowplan.total s.items kind := by
      intro kind
      unfold Stowplan.total
      rw [hitems]
      exact hu.weigh hlight _
    refine ⟨htotal, ?_, fun kind => (htotal kind).trans_le (hg.totals kind)⟩
    rw [hitems]
    exact hu.counts hlight hg.counts

/-- **No amount of moving and arranging changes how much there is of anything.** Let the
    quantities of a well-formed workspace be multiples of one `2 ^ e`, and no kind add up to more
    than `2 ^ 53` of them. Over every run of accepted commands that move such quantities of items
    (one, many, or a plan step by step) or arrange the home around them, in any order, each kind
    of item that the merge rule tells apart adds up to what it did at the start, and every
    quantity is a double, so that no sum was rounded. -/
theorem moves_conserve_run (s t : WorkspaceState) (e : Int) (hw : WellFormed s)
    (hlow : -1074 ≤ e) (hhigh : e ≤ 970) (hg : OnGrid e s)
    (hrun : ReflTransGen (Rearranges e) s t) :
    (∀ kind, total t.items kind = total s.items kind) ∧
      ∀ i ∈ t.items, i.active = true → IsDouble i.quantity.exact := by
  have hall : WellFormed t ∧ (∀ kind, total t.items kind = total s.items kind) ∧ OnGrid e t := by
    induction hrun with
    | refl => exact ⟨hw, fun _ => rfl, hg⟩
    | tail _ hstep ih =>
        obtain ⟨hwb, htotal, hgb⟩ := ih
        obtain ⟨hsame, hgc⟩ := hstep.onGrid hwb hhigh hgb
        refine ⟨?_, fun kind => (hsame kind).trans (htotal kind), hgc⟩
        obtain ⟨env, r, -, h, rfl⟩ := hstep
        exact step_wellFormed hwb ⟨r, h, rfl⟩
  obtain ⟨hwt, htotal, hgt⟩ := hall
  exact ⟨htotal, fun i hi hact => hgt.isDouble hwt hlow hhigh hi hact⟩

end Scales

/-! ## 9. Two lamps -/

theorem boxesState_total (kind : MergeKey) :
    @total asciiHost boxesState.items kind ≤ 4 := by
  let : Host := asciiHost
  have hle : ∀ i : ItemRecord, i.active = true → 0 ≤ i.quantity.exact →
      i.weight (fun k _ => if k = kind then 1 else 0) ≤ i.quantity.exact := by
    intro i hact h0
    rw [weight_active hact]
    split
    · rw [mul_one]
    · rw [mul_zero]
      exact h0
  have h3 : (3 : JsNumber).exact = 3 := by decide +kernel
  have h1 : (1 : JsNumber).exact = 1 := by decide +kernel
  have hleft := hle { plainItem "i1" "Lamp" "A" with quantity := 3 } rfl (h3 ▸ by norm_num)
  have hright := hle (plainItem "i2" "Lamp" "B") rfl (h1 ▸ by norm_num)
  show tally _ [_, _] ≤ _
  rw [tally_cons, tally_singleton]
  refine le_trans (add_le_add hleft hright) ?_
  show (3 : JsNumber).exact + (1 : JsNumber).exact ≤ _
  rw [h3, h1]
  norm_num

theorem boxesState_inRange : @InRange asciiHost boxesState := by
  have hmax : (4 : ℚ) ≤ JsNumber.maxValue := by decide +kernel
  exact fun kind => (boxesState_total kind).trans hmax

/-- A whole number is a multiple of `2 ^ 0`. -/
theorem ofInt_onGrid (n : Int) :
    (JsNumber.ofInt n).exact ∈ AddSubgroup.zmultiples ((2 : ℚ) ^ (0 : Int)) := by
  refine AddSubgroup.mem_zmultiples_iff.mpr ⟨n, ?_⟩
  rw [zpow_zero, zsmul_one]
  rfl

theorem moveLamps_accepted : (@applyCommand asciiHost boxesState moveLamps).isOk = true := by
  decide +kernel

theorem moves_conserve_lamps : ∃ r, @applyCommand asciiHost boxesState moveLamps = .ok r ∧
    ∀ kind, @total asciiHost r.state.items kind = @total asciiHost boxesState.items kind := by
  let : Host := asciiHost
  obtain ⟨r, hr⟩ := exists_of_isOk moveLamps_accepted
  exact ⟨r, hr, (moves_conserve boxesState moveLamps r boxesState_wellFormed boxesState_inRange
    rfl hr).1⟩

theorem boxesState_onGrid : @OnGrid asciiHost 0 boxesState := by
  let : Host := asciiHost
  refine ⟨fun i hi _ => ?_, fun kind => ?_⟩
  · simp only [boxesState, List.mem_cons, List.not_mem_nil, or_false] at hi
    rcases hi with rfl | rfl
    · exact ofInt_onGrid 3
    · exact ofInt_onGrid 1
  · exact (boxesState_total kind).trans (by norm_num)

/-- Two of the lamps are moved. -/
theorem moves_conserve_run_lamps : ∃ r, @applyCommand asciiHost boxesState moveLamps = .ok r ∧
    (∀ kind, @total asciiHost r.state.items kind = @total asciiHost boxesState.items kind) ∧
    ∀ i ∈ r.state.items, i.active = true → IsDouble i.quantity.exact := by
  let : Host := asciiHost
  obtain ⟨r, hr⟩ := exists_of_isOk moveLamps_accepted
  have hmoved : ∀ p ∈ moveLamps.command.moved boxesState,
      p.2.exact ∈ AddSubgroup.zmultiples ((2 : ℚ) ^ (0 : Int)) := by
    intro p hp
    have hlist : moveLamps.command.moved boxesState =
        ((findItem boxesState "i1").map fun i => (i, (2 : JsNumber))).toList := rfl
    rw [hlist, Option.mem_toList] at hp
    obtain ⟨i, -, rfl⟩ := Option.map_eq_some_iff.mp hp
    exact ofInt_onGrid 2
  exact ⟨r, hr, moves_conserve_run boxesState r.state 0 boxesState_wellFormed (by decide)
    (by decide) boxesState_onGrid (.single ⟨moveLamps, r, .inl ⟨rfl, hmoved⟩, hr, rfl⟩)⟩

end Stowplan
