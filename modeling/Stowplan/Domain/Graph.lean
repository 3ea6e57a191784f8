/-
  File:      Stowplan/Domain/Graph.lean
  Subject:   WELL-FORMED WORKSPACES: identifiers, references, the location forest, codes,
  quantities and versions; and what each kind of change needs to keep them.

  `WellFormed` is the invariant of the record graph. Every lemma below says of one update of the
  state what has to hold of it before, so that the state after is well formed again; the
  commands are compositions of these updates.
-/
import Stowplan.Domain.Edits
import Stowplan.Lib.Forest

namespace Stowplan

open Keyed Forest Relation

/-- `a` is a location directly inside `b`. -/
def Under (s : WorkspaceState) : String → String → Prop :=
  Below Location.id Location.parentId s.locations

/-- Every parent is an existing location. -/
def ParentsThere (s : WorkspaceState) : Prop :=
  ∀ l ∈ s.locations, ∀ p, l.parentId = some p → ∃ m ∈ s.locations, m.id = p

/-- Every item is in an existing location. -/
def ItemsThere (s : WorkspaceState) : Prop :=
  ∀ i ∈ s.items, ∃ l ∈ s.locations, l.id = i.locationId

/-- The part of the record graph that the placement of records rests on. -/
structure Anchored (s : WorkspaceState) : Prop where
  records : UniqueRecords s
  parents : ParentsThere s
  stored : ItemsThere s

/-- The record graph holds together. -/
structure WellFormed [Host] (s : WorkspaceState) : Prop where
  unique : Unique s
  /-- every parent is an existing location -/
  parents : ∀ l ∈ s.locations, ∀ p, l.parentId = some p → ∃ m ∈ s.locations, m.id = p
  /-- no location is inside itself -/
  acyclic : Acyclic (Under s)
  /-- every item is in an existing location -/
  stored : ∀ i ∈ s.items, ∃ l ∈ s.locations, l.id = i.locationId
  /-- active locations have different codes -/
  codes : ∀ l ∈ s.locations, ∀ m ∈ s.locations, l.active = true → m.active = true →
    codeKey l.code = codeKey m.code → l.id = m.id
  quantities : ∀ i ∈ s.items, i.quantity.isFinite = true ∧ i.quantity.pos = true
  versions : ∀ i ∈ s.items, 1 ≤ i.version ∧ JsNumber.safeInt i.version = true

theorem WellFormed.anchored [Host] {s : WorkspaceState} (hw : WellFormed s) : Anchored s :=
  ⟨hw.unique.records, hw.parents, hw.stored⟩

/-! ## 1. Looking up -/

/-- An item that is found is there, under its id. -/
theorem findItem_mem {s : WorkspaceState} {id : String} {i : ItemRecord}
    (h : findItem s id = some i) : i ∈ s.items ∧ i.id = id :=
  findKey_some h

/-- So for a location. -/
theorem findLocation_mem {s : WorkspaceState} {id : String} {l : Location}
    (h : findLocation s id = some l) : l ∈ s.locations ∧ l.id = id :=
  findKey_some h

/-- So for a plan. -/
theorem findPlan_mem {s : WorkspaceState} {id : String} {p : MovePlan}
    (h : findPlan s id = some p) : p ∈ s.plans ∧ p.id = id :=
  findKey_some h

/-- An item that is there is found. -/
theorem UniqueRecords.findItem {s : WorkspaceState} (hr : UniqueRecords s) {i : ItemRecord}
    (h : i ∈ s.items) : findItem s i.id = some i :=
  findKey_of_mem hr.items h

theorem Unique.findItem {s : WorkspaceState} (hu : Unique s) {i : ItemRecord} (h : i ∈ s.items) :
    findItem s i.id = some i :=
  hu.records.findItem h

/-- So for a location. -/
theorem UniqueRecords.findLocation {s : WorkspaceState} (hr : UniqueRecords s) {l : Location}
    (h : l ∈ s.locations) : findLocation s l.id = some l :=
  findKey_of_mem hr.locations h

theorem Unique.findLocation {s : WorkspaceState} (hu : Unique s) {l : Location}
    (h : l ∈ s.locations) : findLocation s l.id = some l :=
  hu.records.findLocation h

/-- So for a plan. -/
theorem Unique.findPlan {s : WorkspaceState} (hu : Unique s) {p : MovePlan} (h : p ∈ s.plans) :
    findPlan s p.id = some p :=
  findKey_of_mem hu.plans h

/-- The other locations inside of one are those the engine's search finds, also in a cycle. -/
theorem UniqueRecords.mem_descendantsOf {s : WorkspaceState} (hr : UniqueRecords s)
    {id : String} {l : Location} :
    l ∈ descendantsOf s id ↔ l ∈ s.locations ∧ TransGen (Under s) l.id id ∧ l.id ≠ id :=
  mem_descend hr.locations

/-- The locations strictly inside another are the ones the engine's search finds. -/
theorem mem_descendantsOf [Host] {s : WorkspaceState} (hw : WellFormed s) {id : String}
    {l : Location} : l ∈ descendantsOf s id ↔ l ∈ s.locations ∧ TransGen (Under s) l.id id := by
  rw [hw.unique.records.mem_descendantsOf]
  constructor
  · rintro ⟨h1, h2, _⟩
    exact ⟨h1, h2⟩
  · rintro ⟨h1, h2⟩
    exact ⟨h1, h2, hw.acyclic.ne h2⟩

/-! ## 2. The locations read the same -/

section Forms

variable [Host] {s t : WorkspaceState}

/-- Two locations that a change leaves alike: where they are, whether active, under what code. -/
structure Location.Alike (l m : Location) : Prop where
  id : m.id = l.id
  parentId : m.parentId = l.parentId
  active : m.active = l.active
  code : codeKey m.code = codeKey l.code

omit [Host] in
/-- Locations that say the same about parents are the same forest. -/
theorem under_of_parents (h : ∀ m ∈ t.locations, ∃ l ∈ s.locations,
    m.id = l.id ∧ m.parentId = l.parentId) {a b : String} (hab : Under t a b) : Under s a b := by
  obtain ⟨m, hm, rfl, hp⟩ := hab
  obtain ⟨l, hl, hid, hpar⟩ := h m hm
  exact ⟨l, hl, hid.symm, hpar ▸ hp⟩

/-- A change that leaves every location alike and the items as they were. -/
theorem WellFormed.of_alike (hw : WellFormed s) (hu : Unique t)
    (hitems : t.items = s.items)
    (hids : t.locations.map Location.id = s.locations.map Location.id)
    (halike : ∀ m ∈ t.locations, ∃ l ∈ s.locations, l.Alike m) : WellFormed t := by
  have hex : ∀ p, (∃ m ∈ s.locations, m.id = p) → ∃ m ∈ t.locations, m.id = p := by
    rintro p ⟨m, hm, rfl⟩
    have : m.id ∈ t.locations.map Location.id := hids ▸ List.mem_map_of_mem hm
    obtain ⟨n, hn, he⟩ := List.mem_map.mp this
    exact ⟨n, hn, he⟩
  refine ⟨hu, ?_, ?_, ?_, ?_, ?_, ?_⟩
  · intro m hm p hp
    obtain ⟨l, hl, ha⟩ := halike m hm
    exact hex p (hw.parents l hl p (ha.parentId ▸ hp))
  · refine hw.acyclic.mono fun a b => under_of_parents fun m hm => ?_
    obtain ⟨l, hl, ha⟩ := halike m hm
    exact ⟨l, hl, ha.id, ha.parentId⟩
  · intro i hi
    exact hex _ (hw.stored i (hitems ▸ hi))
  · intro m hm n hn hma hna hc
    obtain ⟨l, hl, ha⟩ := halike m hm
    obtain ⟨k, hk, hb⟩ := halike n hn
    rw [ha.id, hb.id]
    exact hw.codes l hl k hk (ha.active ▸ hma) (hb.active ▸ hna) (by rw [← ha.code, ← hb.code, hc])
  · intro i hi
    exact hw.quantities i (hitems ▸ hi)
  · intro i hi
    exact hw.versions i (hitems ▸ hi)

/-! ## 3. Plans and the workspace record -/

/-- The graph does not depend on the plans, but for their identifiers. -/
theorem WellFormed.of_plans (hw : WellFormed s) (hitems : t.items = s.items)
    (hlocs : t.locations = s.locations) (hplans : (t.plans.map MovePlan.id).Nodup) :
    WellFormed t := by
  refine hw.of_alike ⟨?_, ?_, hplans⟩ hitems (by rw [hlocs]) ?_
  · rw [hitems]
    exact hw.unique.items
  · rw [hlocs]
    exact hw.unique.locations
  · rw [hlocs]
    exact fun m hm => ⟨m, hm, rfl, rfl, rfl, rfl⟩

/-- Each change of the records keeps a workspace well formed: here discarded plans. -/
theorem WellFormed.discardPlans (hw : WellFormed s) (ids : List String) :
    WellFormed (s.discardPlans ids) := by
  refine hw.of_plans rfl rfl ?_
  show ((mapKeys _ _ _ _).map _).Nodup
  rw [map_mapKeys (f := MovePlan.discard) (fun _ => rfl)]
  exact hw.unique.plans

theorem WellFormed.putPlan (hw : WellFormed s) (p : MovePlan) : WellFormed (s.putPlan p) :=
  hw.of_plans rfl rfl (hw.unique.putPlan p).plans

/-- A new plan. -/
theorem WellFormed.addPlan (hw : WellFormed s) {p : MovePlan} (h : findPlan s p.id = none) :
    WellFormed (s.addPlan p) :=
  hw.of_plans rfl rfl (nodup_append_new hw.unique.plans h)

theorem WellFormed.rename (hw : WellFormed s) (name : String) : WellFormed (s.rename name) :=
  hw.of_plans rfl rfl hw.unique.plans

/-! ## 4. Locations -/

/-- Spaces in progress. -/
theorem WellFormed.setProgress (hw : WellFormed s) (ids : List String) (timestamp : String) :
    WellFormed (s.setProgress ids timestamp) := by
  have hids : (s.setProgress ids timestamp).locations.map Location.id =
      s.locations.map Location.id :=
    map_mapKeys (f := Location.begin timestamp) (fun _ => rfl) ids s.locations
  refine hw.of_alike ⟨hw.unique.items, ?_, hw.unique.plans⟩ rfl hids ?_
  · rw [hids]
    exact hw.unique.locations
  · intro m hm
    obtain ⟨l, hl, rfl⟩ := mem_mapKeys.mp hm
    refine ⟨l, hl, ?_⟩
    split <;> exact ⟨rfl, rfl, rfl, rfl⟩

/-- A new location under an existing one. -/
theorem WellFormed.addLocation (hw : WellFormed s) {l : Location}
    (hid : findLocation s l.id = none)
    (hparent : ∀ p, l.parentId = some p → ∃ m ∈ s.locations, m.id = p)
    (hcode : l.active = true → ∀ m ∈ s.locations, m.active = true →
      codeKey m.code ≠ codeKey l.code) : WellFormed (s.addLocation l) := by
  have hnew : ∀ m ∈ s.locations, m.id ≠ l.id := findKey_eq_none.mp hid
  have hmem : ∀ m, m ∈ (s.addLocation l).locations ↔ m ∈ s.locations ∨ m = l := by
    intro m
    show m ∈ s.locations ++ [l] ↔ _
    simp
  refine ⟨⟨hw.unique.items, nodup_append_new hw.unique.locations hid, hw.unique.plans⟩,
    ?_, ?_, ?_, ?_, hw.quantities, hw.versions⟩
  · intro m hm p hp
    rcases (hmem m).mp hm with hm | rfl
    · obtain ⟨n, hn, he⟩ := hw.parents m hm p hp
      exact ⟨n, (hmem n).mpr (.inl hn), he⟩
    · obtain ⟨n, hn, he⟩ := hparent p hp
      exact ⟨n, (hmem n).mpr (.inl hn), he⟩
  · cases hp : l.parentId with
    | none =>
        refine hw.acyclic.mono fun a b hab => ?_
        obtain ⟨m, hm, rfl, hmp⟩ := hab
        rcases (hmem m).mp hm with hm | rfl
        · exact ⟨m, hm, rfl, hmp⟩
        · rw [hp] at hmp
          cases hmp
    | some p =>
        refine hw.acyclic.insert (k := l.id) (p := p) (fun a b hab => ?_) ?_
        · obtain ⟨m, hm, rfl, hmp⟩ := hab
          rcases (hmem m).mp hm with hm | rfl
          · exact .inl ⟨m, hm, rfl, hmp⟩
          · rw [hp] at hmp
            exact .inr ⟨rfl, (Option.some.inj hmp).symm⟩
        · -- nothing is inside a location that is not there yet
          intro hpath
          rcases ReflTransGen.cases_tail hpath with he | ⟨c, _, m, hm, rfl, hmp⟩
          · obtain ⟨n, hn, hnp⟩ := hparent p hp
            exact hnew n hn (hnp.trans he.symm)
          · obtain ⟨n, hn, hnp⟩ := hw.parents m hm l.id hmp
            exact hnew n hn hnp
  · intro i hi
    obtain ⟨n, hn, he⟩ := hw.stored i hi
    exact ⟨n, (hmem n).mpr (.inl hn), he⟩
  · intro m hm n hn hma hna hc
    rcases (hmem m).mp hm with hm' | rfl <;> rcases (hmem n).mp hn with hn' | rfl
    · exact hw.codes m hm' n hn' hma hna hc
    · exact absurd hc (hcode hna m hm' hma)
    · exact absurd hc.symm (hcode hma n hn' hna)
    · rfl

/-- A location replaced: it stays where it is, or goes to one that is not inside it. -/
theorem WellFormed.putLocation (hw : WellFormed s) {l l' : Location}
    (hl : findLocation s l.id = some l) (hid : l'.id = l.id)
    (hparent : l'.parentId = l.parentId ∨ ∀ p, l'.parentId = some p →
      (∃ m ∈ s.locations, m.id = p) ∧ ¬ ReflTransGen (Under s) p l.id)
    (hcode : l'.active = true → ∀ m ∈ s.locations, m.id ≠ l.id → m.active = true →
      codeKey m.code ≠ codeKey l'.code) : WellFormed (s.putLocation l') := by
  have hlm := (findLocation_mem hl).1
  have hmem : ∀ m, m ∈ (s.putLocation l').locations →
      (m ∈ s.locations ∧ m.id ≠ l.id) ∨ m = l' := by
    intro m hm
    rcases mem_replaceKey.mp hm with ⟨h1, h2⟩ | ⟨h1, _⟩
    · exact .inl ⟨h1, hid ▸ h2⟩
    · exact .inr h1
  have hex : ∀ p, (∃ m ∈ s.locations, m.id = p) → ∃ m ∈ (s.putLocation l').locations, m.id = p := by
    rintro p ⟨m, hm, rfl⟩
    have : m.id ∈ (s.putLocation l').locations.map Location.id := by
      show m.id ∈ (replaceKey _ _ _).map _
      rw [map_replaceKey]
      exact List.mem_map_of_mem hm
    obtain ⟨n, hn, he⟩ := List.mem_map.mp this
    exact ⟨n, hn, he⟩
  refine ⟨hw.unique.putLocation l', ?_, ?_, ?_, ?_, hw.quantities, hw.versions⟩
  · intro m hm p hp
    rcases hmem m hm with ⟨hm, _⟩ | rfl
    · exact hex p (hw.parents m hm p hp)
    · rcases hparent with he | hnew
      · exact hex p (hw.parents l hlm p (he ▸ hp))
      · exact hex p (hnew p hp).1
  · rcases hparent with he | hnew
    · refine hw.acyclic.mono fun a b => under_of_parents fun m hm => ?_
      rcases hmem m hm with ⟨hm, _⟩ | rfl
      · exact ⟨m, hm, rfl, rfl⟩
      · exact ⟨l, hlm, hid, he⟩
    · cases hp : l'.parentId with
      | none =>
          refine hw.acyclic.mono fun a b hab => ?_
          obtain ⟨m, hm, rfl, hmp⟩ := hab
          rcases hmem m hm with ⟨hm, _⟩ | rfl
          · exact ⟨m, hm, rfl, hmp⟩
          · rw [hp] at hmp
            cases hmp
      | some p =>
          refine hw.acyclic.insert (k := l.id) (p := p) (fun a b hab => ?_) (hnew p hp).2
          obtain ⟨m, hm, rfl, hmp⟩ := hab
          rcases hmem m hm with ⟨hm, _⟩ | rfl
          · exact .inl ⟨m, hm, rfl, hmp⟩
          · rw [hp] at hmp
            exact .inr ⟨hid, (Option.some.inj hmp).symm⟩
  · intro i hi
    exact hex _ (hw.stored i hi)
  · intro m hm n hn hma hna hc
    rcases hmem m hm with ⟨hm', hmne⟩ | rfl <;> rcases hmem n hn with ⟨hn', hnne⟩ | rfl
    · exact hw.codes m hm' n hn' hma hna hc
    · exact absurd hc (hcode hna m hm' hmne hma)
    · exact absurd hc.symm (hcode hma n hn' hnne hna)
    · rfl

/-- An active location replaced where it is, under its code. -/
theorem WellFormed.putLocation_here (hw : WellFormed s) {l l' : Location}
    (hl : findLocation s l.id = some l) (hact : l.active = true) (hid : l'.id = l.id)
    (hparent : l'.parentId = l.parentId) (hcode : l'.code = l.code) :
    WellFormed (s.putLocation l') := by
  refine hw.putLocation hl hid (.inl hparent) fun _ m hm hne ha he => ?_
  rw [hcode] at he
  exact hne (hw.codes m hm l (findLocation_mem hl).1 ha hact he)

/-- Locations removed that nothing left refers to. -/
theorem WellFormed.dropLocations (hw : WellFormed s) {ids : List String}
    (hparent : ∀ l ∈ s.locations, l.id ∉ ids → ∀ p, l.parentId = some p → p ∉ ids)
    (hstored : ∀ i ∈ s.items, i.locationId ∉ ids) : WellFormed (s.dropLocations ids) := by
  have hmem : ∀ m, m ∈ (s.dropLocations ids).locations ↔ m ∈ s.locations ∧ m.id ∉ ids := by
    intro m
    show m ∈ s.locations.filter _ ↔ _
    simp
  refine ⟨⟨hw.unique.items, nodup_filter hw.unique.locations _, hw.unique.plans⟩, ?_, ?_, ?_, ?_,
    hw.quantities, hw.versions⟩
  · intro m hm p hp
    obtain ⟨hm, hmid⟩ := (hmem m).mp hm
    obtain ⟨n, hn, rfl⟩ := hw.parents m hm p hp
    exact ⟨n, (hmem n).mpr ⟨hn, hparent m hm hmid n.id hp⟩, rfl⟩
  · exact hw.acyclic.mono fun a b => Below.mono fun m hm => ((hmem m).mp hm).1
  · intro i hi
    obtain ⟨n, hn, he⟩ := hw.stored i hi
    exact ⟨n, (hmem n).mpr ⟨hn, he ▸ hstored i hi⟩, he⟩
  · intro m hm n hn
    exact hw.codes m ((hmem m).mp hm).1 n ((hmem n).mp hn).1

/-! ## 5. Items -/

/-- What an item needs to be stored. -/
structure ItemFits (s : WorkspaceState) (i : ItemRecord) : Prop where
  stored : ∃ l ∈ s.locations, l.id = i.locationId
  quantity : i.quantity.isFinite = true ∧ i.quantity.pos = true
  version : 1 ≤ i.version ∧ JsNumber.safeInt i.version = true

/-- An item of a well-formed workspace fits it. -/
theorem WellFormed.fits (hw : WellFormed s) {i : ItemRecord} (hi : i ∈ s.items) : ItemFits s i :=
  ⟨hw.stored i hi, hw.quantities i hi, hw.versions i hi⟩

/-- A change of the items alone. -/
theorem WellFormed.of_items (hw : WellFormed s) (hlocs : t.locations = s.locations)
    (hplans : t.plans = s.plans) (hids : (t.items.map ItemRecord.id).Nodup)
    (h : ∀ i ∈ t.items, ItemFits s i) : WellFormed t := by
  refine ⟨⟨hids, hlocs ▸ hw.unique.locations, hplans ▸ hw.unique.plans⟩, ?_, ?_, ?_, ?_, ?_, ?_⟩
  · rw [hlocs]
    exact hw.parents
  · unfold Under
    rw [hlocs]
    exact hw.acyclic
  · rw [hlocs]
    exact fun i hi => (h i hi).stored
  · rw [hlocs]
    exact hw.codes
  · exact fun i hi => (h i hi).quantity
  · exact fun i hi => (h i hi).version

/-- Items that go. -/
theorem WellFormed.dropItems (hw : WellFormed s) (ids : List String) :
    WellFormed (s.dropItems ids) := by
  refine hw.of_items rfl rfl (nodup_filter hw.unique.items _) fun i hi => ?_
  exact hw.fits (List.mem_filter.mp hi).1

/-- New items that fit. -/
theorem WellFormed.addItems (hw : WellFormed s) {is : List ItemRecord}
    (hn : (is.map ItemRecord.id).Nodup) (hnew : ∀ i ∈ is, findItem s i.id = none)
    (h : ∀ i ∈ is, ItemFits s i) : WellFormed (s.addItems is) := by
  refine hw.of_items rfl rfl ?_ fun i hi => ?_
  · show ((s.items ++ is).map _).Nodup
    rw [List.map_append, List.nodup_append]
    refine ⟨hw.unique.items, hn, ?_⟩
    rintro a ha b hb rfl
    obtain ⟨i, hi, rfl⟩ := List.mem_map.mp hb
    obtain ⟨j, hj, hji⟩ := List.mem_map.mp ha
    exact findKey_eq_none.mp (hnew i hi) j hj hji
  · rcases List.mem_append.mp hi with hi | hi
    · exact hw.fits hi
    · exact h i hi

/-- An item replaced by one that fits. -/
theorem WellFormed.putItem (hw : WellFormed s) {i : ItemRecord} (h : ItemFits s i) :
    WellFormed (s.putItem i) := by
  refine hw.of_items rfl rfl (hw.unique.putItem i).items fun j hj => ?_
  rcases mem_replaceKey.mp hj with ⟨hj, _⟩ | ⟨rfl, _⟩
  · exact hw.fits hj
  · exact h

end Forms

end Stowplan
