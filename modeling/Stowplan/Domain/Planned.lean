/-
  File:      Stowplan/Domain/Planned.lean
  Subject:   WHAT A GENERATED PLAN IS: every step is one that the workspace itself allows.

  The planner decides on a copy that it changes as it goes; the engine checks the plan against
  the workspace as it is. That the two agree rests on the order in which containers are tried. A
  container is tried after those that hold more, so one that was moved out of another before held
  all there was in it; and a container with an item in it that is covered already is left alone.
  So nothing has left a container that is moved, and what is outside it on the copy is outside it.

  * `Containing`, `planContainers_containing`: the loop over the containers;
  * `Containing.unmoved_inside`: nothing was moved out of a container that is moved itself;
  * `Relocating`, `planPasses_relocating`: the passes over the items;
  * `planMoves_planned`: every step of a plan is sound, and no item is carried twice.
-/
import Stowplan.Domain.Planner
import Stowplan.Domain.Placement

namespace Stowplan

open Keyed Forest Relation

/-! ## 1. What is inside -/

section Inside

variable {w : WorkspaceState}

/-- The location and those below it. -/
theorem mem_inside (hn : (w.locations.map Location.id).Nodup) {root id : String} :
    id ∈ root :: descendants w root ↔ ReflTransGen (Under w) id root := by
  unfold descendants descendantsOf
  rw [List.mem_cons, List.mem_map]
  constructor
  · intro h
    rcases h with rfl | ⟨l, hl, rfl⟩
    · exact .refl
    · exact ((mem_descend hn).mp hl).2.1.to_reflTransGen
  · intro h
    by_cases heq : id = root
    · exact .inl heq
    · rcases reflTransGen_iff_eq_or_transGen.mp h with he | ht
      · exact absurd he.symm heq
      · obtain ⟨l, hl, rfl⟩ := exists_of_below ht
        exact .inr ⟨l, (mem_descend hn).mpr ⟨hl, ht, heq⟩, rfl⟩

/-- The active items in any of these. -/
theorem mem_containedItems (hn : (w.locations.map Location.id).Nodup) {root : String}
    {i : ItemRecord} : i ∈ containedItems w root ↔
      i ∈ w.items ∧ i.active = true ∧ ReflTransGen (Under w) i.locationId root := by
  unfold containedItems
  rw [List.mem_filter, Bool.and_eq_true, List.contains_iff_mem, mem_inside hn]

theorem not_mem_of_contains {ids : List String} {id : String} (h : ids.contains id = false) :
    id ∉ ids := by
  intro hmem
  rw [List.contains_iff_mem.mpr hmem] at h
  cases h

/-- Two filters of which one implies the other and keeps no fewer are the same. -/
theorem filter_of_length {α : Type} {p q : α → Bool} {l : List α}
    (hpq : ∀ a ∈ l, p a = true → q a = true)
    (hlen : (l.filter q).length ≤ (l.filter p).length) {a : α} (ha : a ∈ l.filter q) :
    p a = true := by
  have heq : l.filter p = (l.filter q).filter p := by
    rw [List.filter_filter]
    refine List.filter_congr fun b hb => ?_
    cases hp : p b with
    | false => rfl
    | true => rw [hpq b hb hp, Bool.and_self]
  have hsub : (l.filter p).Sublist (l.filter q) := by
    rw [heq]
    exact List.filter_sublist
  rw [← hsub.eq_of_length_le hlen] at ha
  exact (List.mem_filter.mp ha).2

end Inside

/-! ## 2. The copy -/

/-- A location put elsewhere. -/
def Location.reparented (f : String → Option String) (l : Location) : Location :=
  { l with parentId := f l.id }

/-- An item put elsewhere. -/
def ItemRecord.relocated (g : String → String) (i : ItemRecord) : ItemRecord :=
  { i with locationId := g i.id }

theorem modify_eq_map {α κ : Type} [DecidableEq κ] {key : α → κ} {l : List α}
    (hn : (l.map key).Nodup) {n : Nat} {x : α} (hx : l[n]? = some x) (f : α → α) :
    l.modify n f = l.map fun y => if key y = key x then f y else y := by
  refine List.ext_getElem? fun m => ?_
  rw [List.getElem?_modify, List.getElem?_map]
  cases hy : l[m]? with
  | none => rfl
  | some y =>
      simp only [Option.map_eq_map, Option.map_some, Option.some.injEq]
      by_cases hnm : n = m
      · subst hnm
        rw [hx, Option.some.injEq] at hy
        rw [if_pos rfl, if_pos (congrArg key hy.symm)]
      · have hne : key y ≠ key x := by
          intro hkey
          have hm : (l.map key)[m]? = some (key x) := by rw [List.getElem?_map, hy, ← hkey]; rfl
          have hn' : (l.map key)[n]? = some (key x) := by rw [List.getElem?_map, hx]; rfl
          have hlt : n < (l.map key).length := (List.getElem?_eq_some_iff.mp hn').1
          exact hnm ((List.getElem?_inj hlt hn).mp (hn'.trans hm.symm))
        rw [if_neg hnm, if_neg hne]

section Copies

variable {s w : WorkspaceState} {f : String → Option String} {g : String → String}

/-- The copy after some locations and items were put elsewhere. -/
structure Copies (s w : WorkspaceState) (f : String → Option String) (g : String → String) :
    Prop where
  locations : w.locations = s.locations.map (Location.reparented f)
  items : w.items = s.items.map (ItemRecord.relocated g)

/-- The projection has the locations of the workspace. -/
theorem Copies.ids (h : Copies s w f g) :
    w.locations.map Location.id = s.locations.map Location.id := by
  rw [h.locations, List.map_map]
  rfl

/-- And its items. -/
theorem Copies.itemIds (h : Copies s w f g) :
    w.items.map ItemRecord.id = s.items.map ItemRecord.id := by
  rw [h.items, List.map_map]
  rfl

/-- What the copy says of parents. -/
theorem Copies.under (h : Copies s w f g) {a b : String} :
    Under w a b ↔ ∃ l ∈ s.locations, l.id = a ∧ f a = some b := by
  unfold Under Below
  rw [h.locations]
  constructor
  · rintro ⟨m, hm, rfl, hp⟩
    obtain ⟨l, hl, rfl⟩ := List.mem_map.mp hm
    exact ⟨l, hl, rfl, hp⟩
  · rintro ⟨l, hl, rfl, hp⟩
    exact ⟨l.reparented f, List.mem_map_of_mem hl, rfl, hp⟩

/-- Moving a container in the projection moves it in the copy. -/
theorem Copies.moveContainer (h : Copies s w f g) (hn : (s.locations.map Location.id).Nodup)
    {n : Nat} {k : Location} (hk : s.locations[n]? = some k) (d : String) :
    Copies s (moveContainer w n d) (Function.update f k.id (some d)) g := by
  refine ⟨?_, h.items⟩
  have hget : w.locations[n]? = some (k.reparented f) := by
    rw [h.locations, List.getElem?_map, hk]
    rfl
  show w.locations.modify n _ = _
  rw [modify_eq_map (h.ids ▸ hn) hget, h.locations, List.map_map]
  refine List.map_congr_left fun l _ => ?_
  show (if l.id = k.id then _ else _) = _
  unfold Location.reparented
  by_cases hid : l.id = k.id
  · rw [if_pos hid, hid, Function.update_self]
  · rw [if_neg hid, Function.update_of_ne hid]

/-- So does moving an item. -/
theorem Copies.moveItem (h : Copies s w f g) (hn : (s.items.map ItemRecord.id).Nodup)
    {n : Nat} {i : ItemRecord} (hi : s.items[n]? = some i) (d : String) :
    Copies s (moveItem w n d) f (Function.update g i.id d) := by
  refine ⟨h.locations, ?_⟩
  have hget : w.items[n]? = some (i.relocated g) := by
    rw [h.items, List.getElem?_map, hi]
    rfl
  show w.items.modify n _ = _
  rw [modify_eq_map (h.itemIds ▸ hn) hget, h.items, List.map_map]
  refine List.map_congr_left fun j _ => ?_
  show (if j.id = i.id then _ else _) = _
  unfold ItemRecord.relocated
  by_cases hid : j.id = i.id
  · rw [if_pos hid, hid, Function.update_self]
  · rw [if_neg hid, Function.update_of_ne hid]

end Copies

/-! ## 3. What the scores say -/

section Scores

variable [PlannerRuntime] {w : WorkspaceState} {weights : PlanWeights}

/-- A place that is not rejected breaks no rule of the item, and has a finite score. -/
theorem scoreCandidate_ok {item : ItemRecord} {location : Location}
    (h : (scoreCandidate w item location weights).hardFailure = none) :
    hardFailure item location = none ∧
      (scoreCandidate w item location weights).score.isFinite = true := by
  unfold scoreCandidate at h ⊢
  cases hfail : hardFailure item location with
  | some failure =>
      rw [hfail] at h
      cases h
  | none =>
      rw [hfail] at h
      refine ⟨rfl, ?_⟩
      dsimp only at h ⊢
      split at h
      · cases h
      · rename_i tally htally
        split at h
        · rename_i hfinite
          rw [if_pos hfinite]
          exact hfinite
        · cases h

omit [PlannerRuntime] in

/-- Where a location is does not make it storage. -/
theorem isStorageLocation_reparented (f : String → Option String) (l : Location) :
    isStorageLocation (l.reparented f) = isStorageLocation l := rfl

/-- A candidate for a container has room for it and is not below it. -/
theorem containerCandidate_some {container destination : Location} {items : List ItemRecord}
    {move : ContainerMove}
    (h : containerCandidate w container items weights destination = some move) :
    move.destination = destination ∧
      destination.id ∉ container.id :: descendants w container.id ∧
      some destination.id ≠ container.parentId ∧
      ∀ i ∈ items, hardFailure i destination = none := by
  unfold containerCandidate at h
  dsimp only at h
  split at h
  · cases h
  · rename_i houtside
    rw [Bool.not_eq_true, Bool.or_eq_false_iff, decide_eq_false_iff_not] at houtside
    obtain ⟨hout, hparent⟩ := houtside
    have hnot : destination.id ∉ container.id :: descendants w container.id :=
      not_mem_of_contains hout
    split at h
    · cases h
    · split at h
      · cases h
      · rename_i hscores
        split at h
        · cases h
        · split at h
          · cases h
          · split at h
            · cases h
            · cases h
              refine ⟨rfl, hnot, hparent, fun i hi => ?_⟩
              cases hfail : (scoreCandidate w i destination weights).hardFailure with
              | none => exact (scoreCandidate_ok hfail).1
              | some failure =>
                  refine absurd (List.any_eq_true.mpr ⟨_, List.mem_map_of_mem hi, ?_⟩) hscores
                  rw [hfail]
                  rfl

/-- The best move is the one there was, or one to a destination in the list. -/
theorem bestContainerMove_some {container : Location} {items : List ItemRecord}
    {destinations : List Location} {best : Option ContainerMove} {move : ContainerMove}
    (h : bestContainerMove w container items weights best destinations = some move) :
    best = some move ∨ ∃ d ∈ destinations,
      containerCandidate w container items weights d = some move := by
  induction destinations generalizing best with
  | nil => exact .inl h
  | cons d rest ih =>
      unfold bestContainerMove at h
      have hrest : ∀ {b : Option ContainerMove},
          bestContainerMove w container items weights b rest = some move →
          (b = some move → best = some move ∨
            containerCandidate w container items weights d = some move) →
          best = some move ∨ ∃ e ∈ d :: rest,
            containerCandidate w container items weights e = some move := by
        intro b hb himp
        rcases ih hb with heq | ⟨e, he, hmove⟩
        · exact (himp heq).imp_right fun hd => ⟨d, List.mem_cons_self, hd⟩
        · exact .inr ⟨e, List.mem_cons_of_mem _ he, hmove⟩
      split at h
      · rename_i heq
        exact hrest h .inl
      · rename_i other heq
        exact hrest h fun hb => .inr (heq.trans hb)
      · rename_i other first heq
        refine hrest h fun hb => ?_
        split at hb
        · exact .inr (heq.trans hb)
        · exact .inl hb

/-- The move of a container that is chosen is one of its candidates. -/
theorem containerStep_some {container : Location} {candidates : List Location} {id : String}
    {suggestion : ContainerSuggestion}
    (h : containerStep w container candidates weights id = some suggestion) :
    isSet container.parentId = true ∧ 2 ≤ (containedItems w container.id).length ∧
      suggestion.covered = (containedItems w container.id).map (·.id) ∧
      ∃ d ∈ candidates, d.id ∉ container.id :: descendants w container.id ∧
        some d.id ≠ container.parentId ∧
        (∀ i ∈ containedItems w container.id, hardFailure i d = none) ∧
        ∃ reasons score, suggestion.step = {
          completedAt := none
          destinationId := d.id
          explanation := reasons
          id := id
          itemId := none
          locationId := some container.id
          quantity := none
          score := shownScore score
          sourceId := container.parentId.getD ""
          type := .location } := by
  unfold containerStep at h
  dsimp only at h
  split at h
  · cases h
  · rename_i hparent
    split at h
    · cases h
    · rename_i hseveral
      split at h
      · cases h
      · rename_i best hbest
        split at h
        · cases h
        · cases h
          rcases bestContainerMove_some hbest with hnone | ⟨d, hd, hcandidate⟩
          · cases hnone
          · obtain ⟨hdest, hout, hne, hsuits⟩ := containerCandidate_some hcandidate
            refine ⟨by simpa using hparent, by omega, rfl, d, hd, hout, hne, hsuits,
              best.reasons, best.score, ?_⟩
            rw [hdest]

end Scores

/-! ## 4. Sound steps -/

section Steps

variable (s : WorkspaceState) (c : PlanContext)

/-- The move of a container as the workspace itself sees it: what is moved, where to, and that
    the destination is outside and suits all that is moved. -/
structure ContainerSound (step : PlanStep) (k d : Location) : Prop where
  container : k ∈ s.locations
  eligible : c.eligible k = true
  destination : d ∈ s.locations
  storage : isStorageLocation d = true
  receives : c.selection.canReceive d.id = true
  elsewhere : k.parentId ≠ some d.id
  outside : ¬ ReflTransGen (Under s) d.id k.id
  several : 2 ≤ (containedItems s k.id).length
  suits : ∀ i ∈ containedItems s k.id, hardFailure i d = none
  completedAt : step.completedAt = none
  destinationId : step.destinationId = d.id
  itemId : step.itemId = none
  locationId : step.locationId = some k.id
  quantity : step.quantity = none
  sourceId : k.parentId = some step.sourceId
  type : step.type = .location

/-- The move of an item as the workspace itself sees it. -/
structure ItemSound (step : PlanStep) (i : ItemRecord) (d : Location) : Prop where
  item : i ∈ s.items
  active : i.active = true
  movable : c.selection.canMoveItem i.id i.locationId = true
  destination : d ∈ s.locations
  storage : isStorageLocation d = true
  receives : c.selection.canReceive d.id = true
  elsewhere : i.locationId ≠ d.id
  suits : hardFailure i d = none
  completedAt : step.completedAt = none
  destinationId : step.destinationId = d.id
  itemId : step.itemId = some i.id
  locationId : step.locationId = none
  quantity : step.quantity = some i.quantity
  sourceId : step.sourceId = i.locationId
  type : step.type = .item

/-- A step that moves a container or an item as the planner may. -/
def StepSound (step : PlanStep) : Prop :=
  (∃ k d, ContainerSound s c step k d) ∨ ∃ i d, ItemSound s c step i d

/-- The active items that a step moves. -/
def carried (step : PlanStep) : List String :=
  match step.itemId, step.locationId with
  | some id, _ => [id]
  | none, some id => (containedItems s id).map (·.id)
  | none, none => []

/-- The workspace with a step carried out. -/
def carryStep (w : WorkspaceState) (step : PlanStep) : WorkspaceState :=
  { w with
    locations := w.locations.map fun l =>
      if step.locationId = some l.id then { l with parentId := some step.destinationId } else l
    items := w.items.map fun i =>
      if step.itemId = some i.id then { i with locationId := step.destinationId } else i }

/-- The workspace with steps carried out in their order. -/
def carryOut (steps : List PlanStep) : WorkspaceState := steps.foldl carryStep s

/-- What holds of a plan in the making. -/
structure Planned (p : Planning) : Prop where
  projected : p.projected = carryOut s p.steps
  sound : ∀ step ∈ p.steps, StepSound s c step
  carried : p.steps.flatMap (carried s) = p.coveredItems ++ p.plannedItems
  once : (p.coveredItems ++ p.plannedItems).Nodup
  named : ∃ ns : List Nat, p.steps.map (·.id) = ns.map c.stepId ∧ ns.Pairwise (· < ·) ∧
    ∀ n ∈ ns, n < p.drawn

variable {s c} {p : Planning}

theorem Planned.draw (h : Planned s c p) : Planned s c { p with drawn := p.drawn + 1 } := by
  obtain ⟨ns, hids, hpairs, hlt⟩ := h.named
  exact ⟨h.projected, h.sound, h.carried, h.once, ns, hids, hpairs,
    fun n hn => Nat.lt_succ_of_lt (hlt n hn)⟩

/-- Steps are carried out one after another. -/
theorem carryOut_append (steps : List PlanStep) (step : PlanStep) :
    carryOut s (steps ++ [step]) = carryStep (carryOut s steps) step := by
  unfold carryOut
  rw [List.foldl_append]
  rfl

/-- A container step carried out moves the container. -/
theorem moveContainer_eq {w : WorkspaceState} (hn : (w.locations.map Location.id).Nodup)
    {n : Nat} {l : Location} (hl : w.locations[n]? = some l) {step : PlanStep}
    (hlocation : step.locationId = some l.id) (hitem : step.itemId = none) :
    moveContainer w n step.destinationId = carryStep w step := by
  have hlocs : w.locations.modify n (fun m => { m with parentId := some step.destinationId }) =
      w.locations.map fun m => if step.locationId = some m.id then
        { m with parentId := some step.destinationId } else m := by
    rw [modify_eq_map hn hl]
    refine List.map_congr_left fun m _ => ?_
    refine if_congr ?_ rfl rfl
    rw [hlocation, Option.some.injEq, eq_comm]
  have hitems : w.items = w.items.map fun i => if step.itemId = some i.id then
      { i with locationId := step.destinationId } else i := by
    refine (List.map_id _).symm.trans (List.map_congr_left fun i _ => ?_)
    rw [hitem]
    rfl
  unfold moveContainer carryStep
  rw [hlocs, ← hitems]

/-- An item step carried out moves the item. -/
theorem moveItem_eq {w : WorkspaceState} (hn : (w.items.map ItemRecord.id).Nodup)
    {n : Nat} {i : ItemRecord} (hi : w.items[n]? = some i) {step : PlanStep}
    (hitem : step.itemId = some i.id) (hlocation : step.locationId = none) :
    moveItem w n step.destinationId = carryStep w step := by
  have hitems : w.items.modify n (fun j => { j with locationId := step.destinationId }) =
      w.items.map fun j => if step.itemId = some j.id then
        { j with locationId := step.destinationId } else j := by
    rw [modify_eq_map hn hi]
    refine List.map_congr_left fun j _ => ?_
    refine if_congr ?_ rfl rfl
    rw [hitem, Option.some.injEq, eq_comm]
  have hlocs : w.locations = w.locations.map fun l => if step.locationId = some l.id then
      { l with parentId := some step.destinationId } else l := by
    refine (List.map_id _).symm.trans (List.map_congr_left fun l _ => ?_)
    rw [hlocation]
    rfl
  unfold moveItem carryStep
  rw [hitems, ← hlocs]

theorem stepIds_append {steps : List PlanStep} {step : PlanStep} {n : Nat}
    (h : ∃ ns : List Nat, steps.map (·.id) = ns.map c.stepId ∧ ns.Pairwise (· < ·) ∧
      ∀ m ∈ ns, m < n) (hid : step.id = c.stepId n) :
    ∃ ns : List Nat, (steps ++ [step]).map (·.id) = ns.map c.stepId ∧ ns.Pairwise (· < ·) ∧
      ∀ m ∈ ns, m < n + 1 := by
  obtain ⟨ns, hids, hpairs, hlt⟩ := h
  refine ⟨ns ++ [n], ?_, ?_, ?_⟩
  · simp [hids, hid]
  · refine List.pairwise_append.mpr ⟨hpairs, List.pairwise_singleton _ _, ?_⟩
    intro m hm k hk
    rw [List.mem_singleton.mp hk]
    exact hlt m hm
  · intro m hm
    rcases List.mem_append.mp hm with hm | hm
    · exact Nat.lt_succ_of_lt (hlt m hm)
    · rw [List.mem_singleton.mp hm]
      exact Nat.lt_succ_self n

end Steps

/-! ## 5. The loop over the containers -/

section Containers

variable {s : WorkspaceState} {c : PlanContext} {p : Planning} {f : String → Option String}
  {moved : List String}

/-- The copy after some containers were moved: the others are where they were, and every item in
    one that was moved is covered. -/
structure Containing (s : WorkspaceState) (c : PlanContext) (p : Planning)
    (f : String → Option String) (moved : List String) : Prop where
  items : p.projected.items = s.items
  locations : p.projected.locations = s.locations.map (Location.reparented f)
  kept : ∀ l ∈ s.locations, l.id ∉ moved → f l.id = l.parentId
  closed : ∀ m ∈ moved, ∀ i ∈ s.items, i.active = true →
    ReflTransGen (Under p.projected) i.locationId m → i.id ∈ p.coveredItems
  unplanned : p.plannedItems = []
  planned : Planned s c p

theorem relocated_self (hn : (s.items.map ItemRecord.id).Nodup) :
    ∃ g, s.items = s.items.map (ItemRecord.relocated g) := by
  refine ⟨fun id => ((findItem s id).map (·.locationId)).getD "", ?_⟩
  refine (List.map_id _).symm.trans (List.map_congr_left fun i hi => ?_)
  have hfind : findItem s i.id = some i := findKey_of_mem hn hi
  have hloc : ((findItem s i.id).map (·.locationId)).getD "" = i.locationId := by
    simp only [hfind, Option.map_some, Option.getD_some]
  exact (congrArg (fun d => { i with locationId := d }) hloc).symm

theorem Containing.copies (h : Containing s c p f moved)
    (hn : (s.items.map ItemRecord.id).Nodup) : ∃ g, Copies s p.projected f g := by
  obtain ⟨g, hg⟩ := relocated_self hn
  exact ⟨g, h.locations, h.items.trans hg⟩

/-- Where a container was not moved the copy says of its parent what the workspace says. -/
theorem Containing.under_iff (h : Containing s c p f moved)
    (hu : Unique s) {a b : String} (ha : a ∉ moved) :
    Under p.projected a b ↔ Under s a b := by
  obtain ⟨g, hcopies⟩ := h.copies hu.items
  rw [hcopies.under]
  constructor
  · rintro ⟨l, hl, rfl, hf⟩
    rw [h.kept l hl ha] at hf
    exact ⟨l, hl, rfl, hf⟩
  · rintro ⟨l, hl, rfl, hp⟩
    exact ⟨l, hl, rfl, (h.kept l hl ha).trans hp⟩

/-- Around an item that is not covered the copy is the workspace. -/
theorem Containing.uncovered (h : Containing s c p f moved) (hu : Unique s) {i : ItemRecord}
    (hi : i ∈ s.items) (hact : i.active = true) (hnew : i.id ∉ p.coveredItems) {m : String} :
    (ReflTransGen (Under s) i.locationId m ↔ ReflTransGen (Under p.projected) i.locationId m) ∧
      (ReflTransGen (Under s) i.locationId m → m ∉ moved) := by
  have hfree : ∀ m, ReflTransGen (Under p.projected) i.locationId m → m ∉ moved :=
    fun m hm hmoved => hnew (h.closed m hmoved i hi hact hm)
  have hup : ∀ {m}, ReflTransGen (Under s) i.locationId m →
      ReflTransGen (Under p.projected) i.locationId m := by
    intro m hm
    induction hm with
    | refl => exact .refl
    | tail _ hstep ih => exact ih.tail ((h.under_iff hu (hfree _ ih)).mpr hstep)
  have hdown : ∀ {m}, ReflTransGen (Under p.projected) i.locationId m →
      ReflTransGen (Under s) i.locationId m := by
    intro m hm
    induction hm with
    | refl => exact .refl
    | tail hab hstep ih => exact ih.tail ((h.under_iff hu (hfree _ hab)).mp hstep)
  exact ⟨⟨hup, hdown⟩, fun hm => hfree m (hup hm)⟩

/-- **Nothing was moved out of a container that is moved itself.** It is tried after those that
    hold more, so a container moved out of it held all its items; but it holds one that is not
    covered. -/
theorem Containing.unmoved_inside (h : Containing s c p f moved) (hu : Unique s) {k : Location}
    (hfullest : ∀ m ∈ moved,
      (containedItems s k.id).length ≤ (containedItems s m).length)
    (hsome : containedItems p.projected k.id ≠ [])
    (hnew : ∀ i ∈ containedItems p.projected k.id, i.id ∉ p.coveredItems) :
    ∀ m ∈ moved, ¬ ReflTransGen (Under s) m k.id := by
  intro m hm hmk
  obtain ⟨g, hcopies⟩ := h.copies hu.items
  have hpn : (p.projected.locations.map Location.id).Nodup := hcopies.ids ▸ hu.locations
  obtain ⟨i, hi⟩ := List.exists_mem_of_ne_nil _ hsome
  obtain ⟨hitem, hact, hpath⟩ := (mem_containedItems hpn).mp hi
  rw [h.items] at hitem
  have hthere := (h.uncovered hu hitem hact (hnew i hi) (m := k.id)).1.mpr hpath
  have hin : i ∈ containedItems s k.id :=
    (mem_containedItems hu.locations).mpr ⟨hitem, hact, hthere⟩
  have hall := filter_of_length (fun j hj hjm => ?_) (hfullest m hm) hin
  · have hjm : i ∈ containedItems s m := List.mem_filter.mpr ⟨hitem, hall⟩
    exact (h.uncovered hu hitem hact (hnew i hi)).2
      ((mem_containedItems hu.locations).mp hjm).2.2 hm
  · have hjm : j ∈ containedItems s m := List.mem_filter.mpr ⟨hj, hjm⟩
    obtain ⟨-, hjact, hjpath⟩ := (mem_containedItems hu.locations).mp hjm
    exact (List.mem_filter.mp
      ((mem_containedItems hu.locations).mpr ⟨hj, hjact, hjpath.trans hmk⟩)).2

/-- What is inside such a container on the copy is what is inside it. -/
theorem Containing.inside (h : Containing s c p f moved) (hu : Unique s) {k : Location}
    (hfree : ∀ m ∈ moved, ¬ ReflTransGen (Under s) m k.id) {a : String}
    (hpath : ReflTransGen (Under s) a k.id) : ReflTransGen (Under p.projected) a k.id := by
  induction hpath using ReflTransGen.head_induction_on with
  | refl => exact .refl
  | head hab hbk ih =>
      refine ih.head ((h.under_iff hu ?_).mpr hab)
      exact fun hm => hfree _ hm (hbk.head hab)

/-- What is in a container that may still move is where it was. -/
theorem Containing.contained (h : Containing s c p f moved) (hu : Unique s) {k : Location}
    (hfree : ∀ m ∈ moved, ¬ ReflTransGen (Under s) m k.id)
    (hnew : ∀ i ∈ containedItems p.projected k.id, i.id ∉ p.coveredItems) :
    containedItems p.projected k.id = containedItems s k.id := by
  obtain ⟨g, hcopies⟩ := h.copies hu.items
  have hpn : (p.projected.locations.map Location.id).Nodup := hcopies.ids ▸ hu.locations
  unfold containedItems
  rw [h.items]
  refine List.filter_congr fun i hi => ?_
  rw [Bool.eq_iff_iff]
  constructor
  · intro hin
    have hmem : i ∈ containedItems p.projected k.id :=
      List.mem_filter.mpr ⟨h.items ▸ hi, hin⟩
    obtain ⟨-, hact, hpath⟩ := (mem_containedItems hpn).mp hmem
    exact (List.mem_filter.mp ((mem_containedItems hu.locations).mpr
      ⟨hi, hact, (h.uncovered hu hi hact (hnew i hmem)).1.mpr hpath⟩)).2
  · intro hin
    have hmem : i ∈ containedItems s k.id := List.mem_filter.mpr ⟨hi, hin⟩
    obtain ⟨-, hact, hpath⟩ := (mem_containedItems hu.locations).mp hmem
    exact (List.mem_filter.mp ((mem_containedItems hpn).mpr
      ⟨h.items ▸ hi, hact, h.inside hu hfree hpath⟩)).2

/-- A way up after a move is a way up before it, or passes the container. -/
theorem Copies.way_up {s w : WorkspaceState} {g : String → String} (h : Copies s w f g)
    (hn : (s.locations.map Location.id).Nodup) {n : Nat} {k : Location}
    (hk : s.locations[n]? = some k) {d a m : String}
    (hpath : ReflTransGen (Under (Stowplan.moveContainer w n d)) a m) :
    ReflTransGen (Under w) a m ∨ ReflTransGen (Under w) a k.id := by
  have hmoved := h.moveContainer hn hk d
  induction hpath using ReflTransGen.head_induction_on with
  | refl => exact .inl .refl
  | @head a b hab _ ih =>
      obtain ⟨l, hl, hla, hf⟩ := hmoved.under.mp hab
      by_cases hak : a = k.id
      · exact .inr (hak ▸ .refl)
      · rw [Function.update_of_ne hak] at hf
        have hold : Under w a b := h.under.mpr ⟨l, hl, hla, hf⟩
        exact ih.imp (fun hx => hx.head hold) fun hx => hx.head hold

section Suggestions

variable [PlannerRuntime]

/-- **A container move that covers nothing twice is sound**, and covers what the workspace has in
    the container. -/
theorem Containing.suggestion_sound (h : Containing s c p f moved) (hu : Unique s)
    {k : Location} (hkm : k ∈ s.locations) (heligible : c.eligible k = true)
    (hfullest : ∀ m ∈ moved,
      (containedItems s k.id).length ≤ (containedItems s m).length)
    {id : String} {suggestion : ContainerSuggestion}
    (hstep : containerStep p.projected k (c.receivers p.projected) c.weights id =
      some suggestion)
    (hnone : ∀ i ∈ suggestion.covered, i ∉ p.coveredItems) :
    (∃ d, ContainerSound s c suggestion.step k d) ∧ suggestion.step.id = id ∧
      containedItems p.projected k.id = containedItems s k.id ∧
      suggestion.covered = (containedItems s k.id).map (·.id) := by
  obtain ⟨hparent, hseveral, hcovered, d', hd', hout, hne, hsuits, reasons, score, hform⟩ :=
    containerStep_some hstep
  obtain ⟨g, hcopies⟩ := h.copies hu.items
  have hpn : (p.projected.locations.map Location.id).Nodup := hcopies.ids ▸ hu.locations
  have hnew : ∀ i ∈ containedItems p.projected k.id, i.id ∉ p.coveredItems := by
    intro i hi
    refine hnone i.id ?_
    rw [hcovered]
    exact List.mem_map_of_mem hi
  have hsome : containedItems p.projected k.id ≠ [] := by
    intro hempty
    rw [hempty] at hseveral
    simp at hseveral
  have hfree := h.unmoved_inside hu hfullest hsome hnew
  have hsame := h.contained hu hfree hnew
  -- the destination, as the workspace has it
  obtain ⟨hmem, hreceives⟩ := List.mem_filter.mp hd'
  rw [h.locations] at hmem
  obtain ⟨d, hd, rfl⟩ := List.mem_map.mp hmem
  rw [isStorageLocation_reparented, Bool.and_eq_true] at hreceives
  have houtside : ¬ ReflTransGen (Under s) d.id k.id := fun hpath =>
    hout ((mem_inside hpn).mpr (h.inside hu hfree hpath))
  have hsource : k.parentId = some (k.parentId.getD "") := by
    cases hp : k.parentId with
    | none =>
        rw [hp] at hparent
        cases hparent
    | some q => rfl
  refine ⟨⟨d, ?_⟩, by rw [hform], hsame, hsame ▸ hcovered⟩
  rw [hform]
  exact ⟨hkm, heligible, hd, hreceives.1, hreceives.2, fun he => hne he.symm, houtside,
    hsame ▸ hseveral, fun i hi => hsuits i (hsame ▸ hi), rfl, rfl, rfl, rfl, rfl, hsource, rfl⟩

omit [PlannerRuntime] in
/-- The plan with one more container move. -/
theorem Containing.planned_append (h : Containing s c p f moved) (hu : Unique s) {k d : Location}
    {suggestion : ContainerSuggestion} (hsound : ContainerSound s c suggestion.step k d)
    (hid : suggestion.step.id = c.stepId p.drawn)
    (hcovered : suggestion.covered = (containedItems s k.id).map (·.id))
    (hnone : ∀ i ∈ suggestion.covered, i ∉ p.coveredItems) :
    Planned s c { p with
      projected := carryStep p.projected suggestion.step
      steps := p.steps ++ [suggestion.step]
      coveredItems := p.coveredItems ++ suggestion.covered
      drawn := p.drawn + 1 } := by
  refine ⟨?_, ?_, ?_, ?_, stepIds_append h.planned.named hid⟩
  · show carryStep p.projected _ = carryOut s (p.steps ++ [suggestion.step])
    rw [carryOut_append, ← h.planned.projected]
  · intro step hst
    rcases List.mem_append.mp hst with hst | hst
    · exact h.planned.sound step hst
    · rw [List.mem_singleton.mp hst]
      exact .inl ⟨k, d, hsound⟩
  · show (p.steps ++ [suggestion.step]).flatMap (Stowplan.carried s) = _
    rw [List.flatMap_append, h.planned.carried, h.unplanned, hcovered]
    simp only [List.flatMap_cons, List.flatMap_nil, List.append_nil]
    unfold Stowplan.carried
    rw [hsound.itemId, hsound.locationId]
  · show (p.coveredItems ++ suggestion.covered ++ p.plannedItems).Nodup
    have honce := h.planned.once
    rw [h.unplanned, List.append_nil] at honce ⊢
    refine List.nodup_append.mpr ⟨honce, ?_, ?_⟩
    · rw [hcovered]
      exact List.Nodup.sublist (List.Sublist.map _ List.filter_sublist) hu.items
    · intro a ha b hb heq
      exact hnone b hb (heq ▸ ha)

/-- **One container is tried**, that holds no more than those tried before. -/
theorem planContainer_containing (h : Containing s c p f moved) (hu : Unique s) {k : Location}
    {n : Nat} (hk : s.locations[n]? = some k) (heligible : c.eligible k = true)
    (hfullest : ∀ m ∈ moved,
      (containedItems s k.id).length ≤ (containedItems s m).length) :
    ∃ f' moved', Containing s c (planContainer c p k n) f' moved' ∧
      ∀ m ∈ moved', m = k.id ∨ m ∈ moved := by
  unfold planContainer
  split
  · exact ⟨f, moved, h, fun _ => .inr⟩
  · rename_i suggestion hstep
    split
    · exact ⟨f, moved,
        ⟨h.items, h.locations, h.kept, h.closed, h.unplanned, h.planned.draw⟩, fun _ => .inr⟩
    · rename_i hany
      have hnone : ∀ i ∈ suggestion.covered, i ∉ p.coveredItems := fun i hi hcov =>
        hany (List.any_eq_true.mpr ⟨i, hi, List.contains_iff_mem.mpr hcov⟩)
      obtain ⟨⟨d, hsound⟩, hid, hsame, hcovered⟩ :=
        h.suggestion_sound hu (List.mem_of_getElem? hk) heligible hfullest hstep hnone
      obtain ⟨g, hcopies⟩ := h.copies hu.items
      have hpn : (p.projected.locations.map Location.id).Nodup := hcopies.ids ▸ hu.locations
      have hmoved := hcopies.moveContainer hu.locations hk suggestion.step.destinationId
      have hget : p.projected.locations[n]? = some (k.reparented f) := by
        rw [h.locations, List.getElem?_map, hk]
        rfl
      have hcarried := moveContainer_eq hpn hget hsound.locationId hsound.itemId
      have hplanned := h.planned_append hu hsound hid hcovered hnone
      rw [← hcarried] at hplanned
      refine ⟨_, k.id :: moved, ⟨h.items, hmoved.locations, ?_, ?_, h.unplanned, hplanned⟩,
        fun m hm => List.mem_cons.mp hm⟩
      · intro l hl hlm
        rw [List.mem_cons, not_or] at hlm
        rw [Function.update_of_ne hlm.1]
        exact h.kept l hl hlm.2
      · intro m hm i hi hact hpath
        have hinside : ReflTransGen (Under p.projected) i.locationId k.id →
            i.id ∈ p.coveredItems ++ suggestion.covered := by
          intro hx
          rw [hcovered, ← hsame]
          exact List.mem_append_right _ (List.mem_map_of_mem
            ((mem_containedItems hpn).mpr ⟨h.items ▸ hi, hact, hx⟩))
        rcases hcopies.way_up hu.locations hk hpath with hx | hx
        · rcases List.mem_cons.mp hm with rfl | hm
          · exact hinside hx
          · exact List.mem_append_left _ (h.closed m hm i hi hact hx)
        · exact hinside hx

/-- **The loop over the containers**, the fullest first. -/
theorem planContainers_containing {containers : List (Location × Nat)}
    (h : Containing s c p f moved) (hu : Unique s)
    (hmem : ∀ k n, (k, n) ∈ containers → s.locations[n]? = some k ∧ c.eligible k = true)
    (hsorted : containers.Pairwise fun a b =>
      (containedItems s b.1.id).length ≤ (containedItems s a.1.id).length)
    (hfullest : ∀ m ∈ moved, ∀ a ∈ containers,
      (containedItems s a.1.id).length ≤ (containedItems s m).length) :
    ∃ f' moved', Containing s c (planContainers c p containers) f' moved' := by
  induction containers generalizing p f moved with
  | nil => exact ⟨f, moved, h⟩
  | cons a rest ih =>
      obtain ⟨k, n⟩ := a
      obtain ⟨hk, heligible⟩ := hmem k n List.mem_cons_self
      obtain ⟨hfirst, hrest⟩ := List.pairwise_cons.mp hsorted
      obtain ⟨f', moved', h', hmoved⟩ := planContainer_containing h hu hk heligible
        fun m hm => hfullest m hm _ List.mem_cons_self
      refine ih h' (fun k n hkn => hmem k n (List.mem_cons_of_mem _ hkn)) hrest ?_
      intro m hm a ha
      rcases hmoved m hm with rfl | hm
      · exact hfirst a ha
      · exact hfullest m hm a (List.mem_cons_of_mem _ ha)

omit [PlannerRuntime] in
/-- The copy as it is first. -/
theorem start_containing (c : PlanContext) (hu : Unique s) :
    Containing s c (startPlanning s) (fun id => (findLocation s id).bind (·.parentId)) [] := by
  refine ⟨rfl, ?_, ?_, fun m hm => absurd hm List.not_mem_nil, rfl, ?_⟩
  · show s.locations = _
    refine (List.map_id _).symm.trans (List.map_congr_left fun l hl => ?_)
    have hloc : (findLocation s l.id).bind (·.parentId) = l.parentId := by
      rw [hu.findLocation hl, Option.bind_some]
    exact (congrArg (fun q => { l with parentId := q }) hloc).symm
  · intro l hl _
    show (findLocation s l.id).bind (·.parentId) = _
    rw [hu.findLocation hl, Option.bind_some]
  · exact ⟨rfl, fun step hst => absurd hst List.not_mem_nil, rfl, List.nodup_nil, [], rfl, .nil,
      fun n hn => absurd hn List.not_mem_nil⟩

omit [PlannerRuntime] in

/-- The containers a plan may move, each once. -/
theorem containers_spec (c : PlanContext) :
    (∀ k n, (k, n) ∈ c.containers s → s.locations[n]? = some k ∧ c.eligible k = true) ∧
      (c.containers s).Pairwise fun a b =>
        (containedItems s b.1.id).length ≤ (containedItems s a.1.id).length := by
  unfold PlanContext.containers
  constructor
  · intro k n hkn
    obtain ⟨hmem, heligible⟩ := List.mem_filter.mp (List.mem_mergeSort.mp hkn)
    exact ⟨List.mem_zipIdx_iff_getElem?.mp hmem, heligible⟩
  · refine (List.pairwise_mergeSort ?_ ?_ _).imp ?_
    · intro a b c hab hbc
      simp only [decide_eq_true_eq] at hab hbc ⊢
      omega
    · intro a b
      simp only [Bool.or_eq_true, decide_eq_true_eq]
      omega
    · intro a b hab
      exact of_decide_eq_true hab

/-- **All containers tried.** -/
theorem containers_containing (c : PlanContext) (hu : Unique s) :
    ∃ f moved, Containing s c (planContainers c (startPlanning s) (c.containers s)) f moved :=
  planContainers_containing (start_containing c hu) hu (containers_spec c).1 (containers_spec c).2
    fun _ hm => absurd hm List.not_mem_nil

end Suggestions

end Containers

/-! ## 6. The passes over the items -/

section Items

variable [PlannerRuntime] {s : WorkspaceState} {c : PlanContext} {p : Planning}
  {f : String → Option String} {g : String → String}

/-- The copy after some items were moved: the others are where they were. -/
structure Relocating (s : WorkspaceState) (c : PlanContext) (p : Planning)
    (f : String → Option String) (g : String → String) : Prop where
  copies : Copies s p.projected f g
  kept : ∀ i ∈ s.items, i.id ∉ p.plannedItems → g i.id = i.locationId
  known : ∀ id ∈ p.plannedItems, id ∈ s.items.map ItemRecord.id
  planned : Planned s c p

omit [PlannerRuntime] in

/-- After the containers the items are placed. -/
theorem Containing.relocating {moved : List String} (h : Containing s c p f moved)
    (hu : Unique s) : ∃ g, Relocating s c p f g := by
  obtain ⟨g, hcopies⟩ := h.copies hu.items
  refine ⟨g, hcopies, fun i hi _ => ?_, ?_, h.planned⟩
  · have hmem : i.relocated g ∈ s.items := by
      rw [← h.items, hcopies.items]
      exact List.mem_map_of_mem hi
    exact congrArg ItemRecord.locationId (eq_of_key_eq hu.items hmem hi rfl)
  · rw [h.unplanned]
    exact fun id hid => absurd hid List.not_mem_nil

/-- What the best destination of an item is. -/
theorem bestDestination_some {w : WorkspaceState} {item : ItemRecord}
    {best : Location × CandidateScore} (h : bestDestination c w item = some best) :
    best.1 ∈ w.locations ∧ isStorageLocation best.1 = true ∧
      c.selection.canReceive best.1.id = true ∧ best.1.id ≠ item.locationId ∧
      hardFailure item best.1 = none := by
  unfold bestDestination at h
  split at h
  · cases h
  · dsimp only at h
    split at h
    · cases h
    · rename_i first hfirst
      split at h
      · cases h
      · cases h
        have hmem := List.mem_of_mem_head? hfirst
        unfold ranked at hmem
        obtain ⟨hin, hfail⟩ := List.mem_filter.mp (List.mem_mergeSort.mp hmem)
        obtain ⟨d, hd, rfl⟩ := List.mem_map.mp hin
        obtain ⟨hd, hne⟩ := List.mem_filter.mp hd
        obtain ⟨hd, hreceives⟩ := List.mem_filter.mp hd
        rw [Bool.and_eq_true] at hreceives
        exact ⟨hd, hreceives.1, hreceives.2, of_decide_eq_true hne,
          (scoreCandidate_ok (Option.isNone_iff_eq_none.mp hfail)).1⟩

/-- An item that may be planned stands where it stood, and its step is sound. -/
theorem Relocating.step_sound (h : Relocating s c p f g) {i : ItemRecord} (hi : i ∈ s.items)
    (hplannable : c.plannable p (i.relocated g) = true)
    {best : Location × CandidateScore}
    (hbest : bestDestination c p.projected (i.relocated g) = some best) (id : String) :
    i.relocated g = i ∧ i.id ∉ p.coveredItems ∧ i.id ∉ p.plannedItems ∧
      ∃ d, ItemSound s c (itemStep i best id) i d := by
  unfold PlanContext.plannable at hplannable
  simp only [Bool.and_eq_true, Bool.not_eq_true'] at hplannable
  obtain ⟨⟨⟨hact, hmovable⟩, hcovered⟩, hfresh⟩ := hplannable
  replace hcovered : i.id ∉ p.coveredItems := not_mem_of_contains hcovered
  replace hfresh : i.id ∉ p.plannedItems := not_mem_of_contains hfresh
  have hloc : g i.id = i.locationId := h.kept i hi hfresh
  have hsame : i.relocated g = i := congrArg (fun d => { i with locationId := d }) hloc
  rw [hsame] at hbest hmovable
  obtain ⟨hmem, hstorage, hreceives, hne, hsuits⟩ := bestDestination_some hbest
  rw [h.copies.locations] at hmem
  obtain ⟨d, hd, hform⟩ := List.mem_map.mp hmem
  rw [← hform] at hstorage hreceives hne hsuits
  refine ⟨hsame, hcovered, hfresh, d, hi, hact, hmovable, hd, hstorage, hreceives,
    fun he => hne he.symm, hsuits, rfl, ?_, rfl, rfl, rfl, rfl, rfl⟩
  show best.1.id = d.id
  rw [← hform]
  rfl

/-- Placing one item keeps the copy in step with the projection. -/
theorem planItem_relocating (h : Relocating s c p f g) (hu : Unique s) (n : Nat) :
    ∃ g', Relocating s c (planItem c p n) f g' := by
  unfold planItem
  split
  · exact ⟨g, h⟩
  · rename_i item hitem
    split
    · exact ⟨g, h⟩
    · rename_i hplannable
      split
      · exact ⟨g, h⟩
      · rename_i best hbest
        rw [h.copies.items, List.getElem?_map, Option.map_eq_some_iff] at hitem
        obtain ⟨i, hi, rfl⟩ := hitem
        have him : i ∈ s.items := List.mem_of_getElem? hi
        rw [Bool.not_eq_true, Bool.not_eq_false'] at hplannable
        obtain ⟨hsame, hcovered, hfresh, d, hsound⟩ :=
          h.step_sound him hplannable hbest (c.stepId p.drawn)
        have hpn : (p.projected.items.map ItemRecord.id).Nodup := h.copies.itemIds ▸ hu.items
        have hget : p.projected.items[n]? = some (i.relocated g) := by
          rw [h.copies.items, List.getElem?_map, hi]
          rfl
        have hitem : (itemStep i best (c.stepId p.drawn)).itemId = some (i.relocated g).id := rfl
        have hcarried := moveItem_eq hpn hget hitem rfl
        rw [hsame]
        refine ⟨_, h.copies.moveItem hu.items hi best.1.id, ?_, ?_, ?_, ?_, ?_, ?_, ?_⟩
        · intro j hj hjp
          rw [List.mem_append, not_or, List.mem_singleton] at hjp
          rw [Function.update_of_ne hjp.2]
          exact h.kept j hj hjp.1
        · intro id hid
          rcases List.mem_append.mp hid with hid | hid
          · exact h.known id hid
          · rw [List.mem_singleton.mp hid]
            exact List.mem_map_of_mem him
        · show moveItem p.projected n _ = carryOut s (p.steps ++ [_])
          rw [carryOut_append, ← h.planned.projected]
          exact hcarried
        · intro step hst
          rcases List.mem_append.mp hst with hst | hst
          · exact h.planned.sound step hst
          · rw [List.mem_singleton.mp hst]
            exact .inr ⟨i, d, hsound⟩
        · show (p.steps ++ [itemStep i best _]).flatMap (carried s) = _
          rw [List.flatMap_append, h.planned.carried, List.append_assoc]
          rfl
        · show (p.coveredItems ++ (p.plannedItems ++ [i.id])).Nodup
          rw [← List.append_assoc]
          refine List.nodup_append.mpr ⟨h.planned.once, List.nodup_singleton _, ?_⟩
          intro a ha b hb heq
          rw [List.mem_singleton.mp hb] at heq
          rcases List.mem_append.mp (heq ▸ ha) with hx | hx
          · exact hcovered hx
          · exact hfresh hx
        · exact stepIds_append h.planned.named rfl

/-- So does placing several. -/
theorem foldl_relocating (ns : List Nat) (h : Relocating s c p f g) (hu : Unique s) :
    ∃ g', Relocating s c (ns.foldl (planItem c) p) f g' := by
  induction ns generalizing p g with
  | nil => exact ⟨g, h⟩
  | cons n ns ih =>
      obtain ⟨g', h'⟩ := planItem_relocating h hu n
      exact ih h'

/-- So does a pass over all of them. -/
theorem planPass_relocating (h : Relocating s c p f g) (hu : Unique s) :
    ∃ g', Relocating s c (planPass c p) f g' :=
  foldl_relocating _ (p := { p with plannedInPass := false })
    ⟨h.copies, h.kept, h.known, h.planned.projected, h.planned.sound, h.planned.carried,
      h.planned.once, h.planned.named⟩ hu

omit [PlannerRuntime] in
/-- No more items are planned than there are. -/
theorem Relocating.plannedItems_le (h : Relocating s c p f g) :
    p.plannedItems.length ≤ s.items.length := by
  have hnodup : p.plannedItems.Nodup := (List.nodup_append.mp h.planned.once).2.1
  have hsub : p.plannedItems.Subperm (s.items.map ItemRecord.id) :=
    hnodup.subperm fun id hid => h.known id hid
  have hle := hsub.length_le
  rwa [List.length_map] at hle

/-! ## 7. The end of the passes -/

/-- Trying an item changes nothing, or plans one more item and says so. -/
theorem planItem_cases (c : PlanContext) (p : Planning) (n : Nat) :
    planItem c p n = p ∨ ((planItem c p n).plannedInPass = true ∧
      (planItem c p n).plannedItems.length = p.plannedItems.length + 1) := by
  unfold planItem
  split
  · exact .inl rfl
  · split
    · exact .inl rfl
    · split
      · exact .inl rfl
      · exact .inr ⟨rfl, by simp⟩

/-- A round of tries that plans nothing leaves everything, and no item has a place to go. -/
theorem foldl_settled {ns : List Nat} (h : (ns.foldl (planItem c) p).plannedInPass = false) :
    ns.foldl (planItem c) p = p ∧ ∀ n ∈ ns, planItem c p n = p := by
  have hkeeps : ∀ (ns : List Nat) (q : Planning), q.plannedInPass = true →
      (ns.foldl (planItem c) q).plannedInPass = true := by
    intro ns
    induction ns with
    | nil => exact fun _ hq => hq
    | cons n ns ih =>
        intro q hq
        refine ih _ ?_
        rcases planItem_cases c q n with heq | ⟨hflag, -⟩
        · rw [heq]
          exact hq
        · exact hflag
  induction ns with
  | nil => exact ⟨rfl, fun n hn => absurd hn List.not_mem_nil⟩
  | cons n ns ih =>
      rw [List.foldl_cons] at h ⊢
      have hsame : planItem c p n = p := by
        rcases planItem_cases c p n with heq | ⟨hflag, -⟩
        · exact heq
        · rw [hkeeps ns _ hflag] at h
          cases h
      rw [hsame] at h ⊢
      obtain ⟨hend, hall⟩ := ih h
      refine ⟨hend, fun m hm => ?_⟩
      rcases List.mem_cons.mp hm with rfl | hm
      · exact hsame
      · exact hall m hm

/-- A round of tries that plans something plans an item more. -/
theorem foldl_grows (ns : List Nat) (p : Planning) :
    p.plannedItems.length ≤ (ns.foldl (planItem c) p).plannedItems.length ∧
      (p.plannedInPass = false → (ns.foldl (planItem c) p).plannedInPass = true →
        p.plannedItems.length < (ns.foldl (planItem c) p).plannedItems.length) := by
  induction ns generalizing p with
  | nil =>
      refine ⟨Nat.le_refl _, fun hfalse htrue => ?_⟩
      rw [List.foldl_nil, hfalse] at htrue
      cases htrue
  | cons n ns ih =>
      rw [List.foldl_cons]
      obtain ⟨hle, hlt⟩ := ih (planItem c p n)
      rcases planItem_cases c p n with heq | ⟨-, hlength⟩
      · rw [heq] at hle hlt ⊢
        exact ⟨hle, hlt⟩
      · refine ⟨?_, fun _ _ => ?_⟩ <;> omega

/-- No item that may be planned has a place that is worth the move. -/
def NothingToGain (c : PlanContext) (p : Planning) : Prop :=
  ∀ i ∈ p.projected.items, c.plannable p i = true → bestDestination c p.projected i = none

/-- A pass that changes nothing leaves no better place. -/
theorem nothingToGain_of_planItem (h : ∀ n ∈ List.range p.projected.items.length, planItem c p n = p) :
    NothingToGain c p := by
  intro i hi hplannable
  obtain ⟨n, hn, hget⟩ := List.getElem_of_mem hi
  have hstep := h n (List.mem_range.mpr hn)
  cases hbest : bestDestination c p.projected i with
  | none => rfl
  | some best =>
      have hlength := congrArg (fun q => q.plannedItems.length) hstep
      unfold planItem at hlength
      rw [List.getElem?_eq_getElem hn, hget] at hlength
      simp only [hplannable, hbest, Bool.not_true, Bool.false_eq_true, if_false,
        List.length_append, List.length_singleton] at hlength
      omega

/-- **The passes come to an end**: with more of them than there are items left, the last one
    plans nothing. -/
theorem planPasses_end {fuel : Nat} (h : Relocating s c p f g) (hu : Unique s)
    (hfuel : s.items.length < fuel + p.plannedItems.length) :
    ∃ g', Relocating s c (planPasses c fuel p) f g' ∧ NothingToGain c (planPasses c fuel p) := by
  induction fuel generalizing p g with
  | zero =>
      have hle := h.plannedItems_le
      omega
  | succ fuel ih =>
      obtain ⟨g', h'⟩ := planPass_relocating h hu
      unfold planPasses
      dsimp only
      cases hflag : (planPass c p).plannedInPass with
      | true =>
          rw [if_pos rfl]
          refine ih h' ?_
          have hlt := (foldl_grows (c := c) (List.range p.projected.items.length)
            { p with plannedInPass := false }).2 rfl hflag
          have hlt' : p.plannedItems.length < (planPass c p).plannedItems.length := hlt
          omega
      | false =>
          rw [if_neg (by decide)]
          obtain ⟨hend, hall⟩ := foldl_settled hflag
          refine ⟨g', h', ?_⟩
          have hsame : planPass c p = { p with plannedInPass := false } := hend
          rw [hsame]
          exact nothingToGain_of_planItem hall

/-- **What the planner makes**: sound steps that carry no item twice, and nothing left to gain by
    one more move of an item. -/
theorem planMoves_planned (c : PlanContext) (hu : Unique s) :
    Planned s c (planMoves c s) ∧ NothingToGain c (planMoves c s) ∧
      ∃ f g, Relocating s c (planMoves c s) f g := by
  obtain ⟨f, moved, hcontaining⟩ := containers_containing c hu
  obtain ⟨g, hrelocating⟩ := hcontaining.relocating hu
  have hfuel : s.items.length < s.items.length + 1 +
      (planContainers c (startPlanning s) (c.containers s)).plannedItems.length := by
    omega
  obtain ⟨g', hend, hnothing⟩ := planPasses_end hrelocating hu hfuel
  exact ⟨hend.planned, hnothing, f, g', hend⟩

end Items

end Stowplan
