/-
  File:      Stowplan/Domain/Reviewed.lean
  Subject:   WHAT A DESTRUCTIVE COMMAND REMOVES: the records that were looked at when it was
  made, as they were, and nothing else.

  Deleting an item, emptying a container and deleting a location with its contents name the
  records that go. The lists are checked against what is there when the command is applied,
  and every listed record is watched as a whole from where the command was made. Between the
  two a workspace may have changed in any way.

  * `reviewing_of_accepted`: an accepted destructive command takes the records it lists, and they
    are all there is inside what is deleted or emptied;
  * `listed_items`, `listed_locations`: a listed record is what it was where the command was made;
  * `reviewed_removed`, `destroys_reviewed`: so it removes what was reviewed.
-/
import Stowplan.Domain.Expectations
import Stowplan.Lib.Outcome

namespace Stowplan

open Keyed JsValue Relation

/-! ## 1. The records there are -/

/-- The identifiers of the records of a kind. -/
def recordIds (s : WorkspaceState) : PatchTarget → List String
  | .workspace => []
  | .item => s.items.map (·.id)
  | .location => s.locations.map (·.id)
  | .plan => s.plans.map (·.id)

/-- Setting a plan aside leaves the plans there are. -/
theorem planIds_of_discard {s t : WorkspaceState} {p : MovePlan}
    (h : applyFieldPatch s (discardPatch p) = .ok t) : recordIds t .plan = recordIds s .plan := by
  unfold applyFieldPatch at h
  simp only [discardPatch, patch, result_bind_ok, result_pure_ok] at h
  obtain ⟨plans, hplans, rfl⟩ := h
  exact patchCollection_ids (PlanEntry.status .discarded) hplans

/-- Patches that set plans aside, and patches of other records, leave the plans there are. -/
theorem planIds_of_patches {s t : WorkspaceState} {ps : List FieldPatch}
    (hps : ∀ p ∈ ps, p.target = .plan → ∃ q, p = discardPatch q) (h : applyPatches s ps = .ok t) :
    recordIds t .plan = recordIds s .plan := by
  induction ps generalizing s with
  | nil =>
      rw [applyPatches] at h
      cases h
      rfl
  | cons p ps ih =>
      rw [applyPatches, result_bind_ok] at h
      obtain ⟨u, hu, h⟩ := h
      rw [ih (fun q hq => hps q (List.mem_cons_of_mem _ hq)) h]
      by_cases hp : p.target = .plan
      · obtain ⟨q, rfl⟩ := hps p List.mem_cons_self hp
        exact planIds_of_discard hu
      · unfold applyFieldPatch at hu
        cases htarget : p.target <;> rw [htarget] at hu <;>
          simp only [result_bind_ok, result_pure_ok] at hu
        case plan => exact absurd htarget hp
        all_goals
          obtain ⟨_, -, rfl⟩ := hu
          rfl

/-! ## 2. The lists of a destructive command -/

/-- The commands that take records away for good. -/
def Command.destructive : Command → Bool
  | .itemDelete _ | .captureEmpty _ _ | .locationDelete _ _ _ => true
  | _ => false

/-- The records the command lists: those that were reviewed before it was made. -/
def Command.reviewed : Command → PatchTarget → List String
  | .itemDelete id, .item => [id]
  | .captureEmpty _ itemIds, .item => itemIds
  | .locationDelete _ _ itemIds, .item => itemIds
  | .locationDelete id descendantIds _, .location => id :: descendantIds
  | _, _ => []

/-- What there is to take away: the item, the active items in the container, all items at or
    below the location. -/
def Command.coversItem (t : WorkspaceState) (i : ItemRecord) : Command → Prop
  | .itemDelete id => i.id = id
  | .captureEmpty id _ => i.locationId = id ∧ i.active = true
  | .locationDelete id _ _ => ReflTransGen (Under t) i.locationId id
  | _ => False

/-- The location and all below it. -/
def Command.coversLocation (t : WorkspaceState) (l : Location) : Command → Prop
  | .locationDelete id _ _ => ReflTransGen (Under t) l.id id
  | _ => False

/-- What the command names is there. -/
def Command.namedIn (s : WorkspaceState) : Command → Prop
  | .itemDelete id => id ∈ recordIds s .item
  | .captureEmpty id itemIds =>
      id ∈ recordIds s .location ∧ ∀ x ∈ itemIds, x ∈ recordIds s .item
  | .locationDelete id descendantIds itemIds =>
      (∀ x ∈ id :: descendantIds, x ∈ recordIds s .location) ∧ ∀ x ∈ itemIds, x ∈ recordIds s .item
  | _ => True

/-- What is known of an accepted destructive command where it is applied, and what it leaves. -/
structure Reviewing (s : WorkspaceState) (command : Command) (t : WorkspaceState) : Prop where
  gone : ∀ kind x, x ∈ recordIds t kind ↔ x ∈ recordIds s kind ∧ x ∉ command.reviewed kind
  items : ∀ i ∈ s.items, i.id ∈ command.reviewed .item ↔ command.coversItem s i
  locations : ∀ l ∈ s.locations,
    l.id ∈ command.reviewed .location ↔ command.coversLocation s l
  named : command.namedIn s

section Lists

variable {s t : WorkspaceState}

/-- The records left when some items and locations go. -/
theorem gone_of_drops {command : Command} (itemIds locationIds : List String)
    (hitems : recordIds t .item = recordIds (s.dropItems itemIds) .item)
    (hlocations : recordIds t .location = recordIds (s.dropLocations locationIds) .location)
    (hplans : recordIds t .plan = recordIds s .plan)
    (hi : ∀ x, x ∈ itemIds ↔ x ∈ command.reviewed .item)
    (hl : ∀ x, x ∈ locationIds ↔ x ∈ command.reviewed .location)
    (hp : command.reviewed .plan = []) (kind : PatchTarget) (x : String) :
    x ∈ recordIds t kind ↔ x ∈ recordIds s kind ∧ x ∉ command.reviewed kind := by
  cases kind with
  | workspace => simp [recordIds]
  | item =>
      rw [hitems, ← hi]
      simp only [recordIds, WorkspaceState.dropItems, List.mem_map, List.mem_filter,
        decide_eq_true_eq]
      constructor
      · rintro ⟨i, ⟨him, hne⟩, rfl⟩
        exact ⟨⟨i, him, rfl⟩, hne⟩
      · rintro ⟨⟨i, him, rfl⟩, hne⟩
        exact ⟨i, ⟨him, hne⟩, rfl⟩
  | location =>
      rw [hlocations, ← hl]
      simp only [recordIds, WorkspaceState.dropLocations, List.mem_map, List.mem_filter,
        decide_eq_true_eq]
      constructor
      · rintro ⟨l, ⟨hlm, hne⟩, rfl⟩
        exact ⟨⟨l, hlm, rfl⟩, hne⟩
      · rintro ⟨⟨l, hlm, rfl⟩, hne⟩
        exact ⟨l, ⟨hlm, hne⟩, rfl⟩
  | plan => simp [hplans, hp]

/-- The items a command names, when it names all that have a property. -/
theorem mem_of_sorted {p : ItemRecord → Bool} {ids : List String}
    (h : sortStrings ids = contentIds s p) (x : String) : x ∈ contentIds s p ↔ x ∈ ids := by
  rw [← h, mem_sortStrings]

theorem found_of_content {p : ItemRecord → Bool} {x : String} (h : x ∈ contentIds s p) :
    x ∈ recordIds s .item := by
  rw [contentIds, mem_sortStrings] at h
  obtain ⟨i, hi, rfl⟩ := List.mem_map.mp h
  exact List.mem_map_of_mem (List.mem_filter.mp hi).1

/-- Plans are set aside, and other records go or are patched. -/
theorem stale_or {itemIds locationIds : List String} {ps : List FieldPatch}
    (h : ∀ p ∈ ps, p.target ≠ .plan) :
    ∀ p ∈ planInvalidationPatches s itemIds locationIds ++ ps, p.target = .plan →
      ∃ q, p = discardPatch q := by
  intro p hp htarget
  rcases List.mem_append.mp hp with hp | hp
  · obtain ⟨q, -, rfl⟩ := List.mem_map.mp hp
    exact ⟨q, rfl⟩
  · exact absurd htarget (h p hp)

variable [Host] {env : CommandEnvelope} {change : Change}

omit [Host] in
/-- A deleted item is reviewed. -/
theorem itemDelete_reviewing (hr : UniqueRecords s) {id : String}
    (h : itemDelete s id = .ok change) (ht : applyPatches s change.patches = .ok t) :
    Reviewing s (.itemDelete id) t := by
  have hchecks := h
  simp only [itemDelete, result_bind_ok, requireItem_ok, result_pure_ok] at hchecks
  obtain ⟨i, hi, _, _, rfl⟩ := hchecks
  obtain ⟨him, rfl⟩ := findItem_mem hi
  obtain ⟨hitems, hlocations⟩ := (itemDelete_yields hr hi h).applied s t (.refl s) ht
  have hplans := planIds_of_patches (stale_or (by simp [patch])) ht
  refine ⟨gone_of_drops [i.id] [] ?_ ?_ hplans (fun x => .rfl)
    (fun x => .rfl) rfl, fun j _ => by simp [Command.reviewed, Command.coversItem],
    fun l _ => by simp [Command.reviewed, Command.coversLocation], List.mem_map_of_mem him⟩
  · rw [recordIds, hitems]
    simp [recordIds, WorkspaceState.dropItem, WorkspaceState.dropItems,
      WorkspaceState.discardPlans]
  · rw [recordIds, hlocations]
    simp [recordIds, WorkspaceState.dropItem, WorkspaceState.dropLocations,
      WorkspaceState.discardPlans]

omit [Host] in
/-- So are the items of a container that is emptied. -/
theorem captureEmpty_reviewing (hr : UniqueRecords s) {id : String} {itemIds : List String}
    (h : captureEmpty s env id itemIds = .ok change)
    (ht : applyPatches s change.patches = .ok t) : Reviewing s (.captureEmpty id itemIds) t := by
  have hchecks := h
  simp only [captureEmpty, result_bind_ok, requireActiveLocation_ok, refuse_ok,
    result_pure_ok, bne_eq_false_iff_eq] at hchecks
  obtain ⟨l, ⟨hl, hact⟩, _, _, _, _, _, hids, rfl⟩ := hchecks
  obtain ⟨hlm, rfl⟩ := findLocation_mem hl
  have hmem := mem_of_sorted (p := fun i => i.locationId = l.id && i.active) hids
  obtain ⟨hitems, hlocations⟩ := (captureEmpty_yields hr hl h).applied s t (.refl s) ht
  have hplans := planIds_of_patches (by
    rw [List.append_assoc]
    refine stale_or fun p hp => ?_
    rcases List.mem_append.mp hp with hp | hp
    · obtain ⟨i, -, rfl⟩ := List.mem_map.mp hp
      simp [patch]
    · rcases List.mem_pair.mp hp with rfl | rfl <;> simp [patch]) ht
  refine ⟨gone_of_drops _ [] (by rw [recordIds, hitems]; rfl) ?_ hplans hmem
    (fun x => .rfl) rfl, fun i hi => ?_,
    fun m _ => by simp [Command.reviewed, Command.coversLocation],
    List.mem_map_of_mem hlm, fun x hx => found_of_content ((hmem x).mpr hx)⟩
  · rw [recordIds, hlocations]
    simp only [recordIds, WorkspaceState.dropLocations, List.not_mem_nil, not_false_eq_true,
      decide_true, List.filter_true]
    exact map_replaceKey _ _
  · show i.id ∈ itemIds ↔ _
    rw [← hmem, mem_contentIds hr hi]
    simp [Command.coversItem]

omit [Host] in
/-- So is everything in a space that goes. -/
theorem locationDelete_reviewing (hr : UniqueRecords s) {id : String}
    {descendantIds itemIds : List String}
    (h : locationDelete s id descendantIds itemIds = .ok change)
    (ht : applyPatches s change.patches = .ok t) :
    Reviewing s (.locationDelete id descendantIds itemIds) t := by
  have hchecks := h
  simp only [locationDelete, result_bind_ok, requireLocation_ok, result_pure_ok, refuse_ok,
    Bool.or_eq_false_iff, bne_eq_false_iff_eq] at hchecks
  obtain ⟨l, hl, _, ⟨hdesc, hids⟩, items, _, _, _, rfl⟩ := hchecks
  obtain ⟨hlm, rfl⟩ := findLocation_mem hl
  have hinside : ∀ x, x ∈ subtreeIds s l.id ↔ x ∈ l.id :: descendantIds := by
    intro x
    rw [subtreeIds, List.mem_cons, List.mem_cons, (sortStrings_eq_iff.mp hdesc).mem_iff]
  have hmem := mem_of_sorted (p := fun i => (subtreeIds s l.id).contains i.locationId) hids
  obtain ⟨hitems, hlocations⟩ := (locationDelete_yields hr hl h).applied s t (.refl s) ht
  have hplans := planIds_of_patches (by
    rw [List.append_assoc, List.append_assoc]
    refine stale_or fun p hp => ?_
    simp only [List.mem_append, List.mem_map, List.mem_singleton] at hp
    rcases hp with ⟨_, _, rfl⟩ | ⟨_, _, rfl⟩ | rfl <;> simp [patch]) ht
  have hbelow : ∀ m ∈ s.locations, m.id ∈ l.id :: descendantIds ↔
      ReflTransGen (Under s) m.id l.id := by
    intro m hm
    rw [← hinside, mem_subtreeIds hr hm]
  refine ⟨gone_of_drops _ _ (by rw [recordIds, hitems]; rfl) (by rw [recordIds, hlocations]; rfl)
    hplans hmem hinside rfl, fun i hi => ?_, hbelow, fun x hx => ?_,
    fun x hx => found_of_content ((hmem x).mpr hx)⟩
  · show i.id ∈ itemIds ↔ ReflTransGen (Under s) i.locationId l.id
    rw [← hmem, mem_contentIds hr hi, List.contains_iff_mem, reflTransGen_iff_eq_or_transGen]
    constructor
    · intro hin
      rcases List.mem_cons.mp hin with he | hin
      · exact .inl he.symm
      · obtain ⟨c, hc, he⟩ := List.mem_map.mp hin
        exact .inr (he ▸ (hr.mem_descendantsOf.mp hc).2.1)
    · rintro (he | hin)
      · exact he ▸ List.mem_cons_self
      · obtain ⟨m, hm, he⟩ := Forest.exists_of_below hin
        rw [← he] at hin ⊢
        exact (mem_subtreeIds hr hm).mpr hin.to_reflTransGen
  · rcases List.mem_cons.mp ((hinside x).mpr hx) with rfl | hx
    · exact List.mem_map_of_mem hlm
    · obtain ⟨c, hc, rfl⟩ := List.mem_map.mp hx
      exact List.mem_map_of_mem (hr.mem_descendantsOf.mp hc).1

end Lists

/-! ## 3. What was expected of the listed records -/

section Listed

variable {s : WorkspaceState}

theorem mem_itemsExpectations {i : ItemRecord} (hi : i ∈ s.items) {ids : List String}
    (hid : i.id ∈ ids) : itemExpectation i "" ∈ itemsExpectations s ids :=
  List.mem_map_of_mem (List.mem_filter.mpr ⟨hi, List.contains_iff_mem.mpr hid⟩)

/-- A listed record that is there is expected to be the same. -/
theorem items_expected {ids : List String} (h : ∀ x ∈ ids, x ∈ recordIds s .item) {x : String}
    (hx : x ∈ ids) : ∃ i ∈ s.items, i.id = x ∧ itemExpectation i "" ∈ itemsExpectations s ids := by
  obtain ⟨i, hi, rfl⟩ := List.mem_map.mp (h x hx)
  exact ⟨i, hi, rfl, mem_itemsExpectations hi hx⟩

theorem exists_location {id : String} (h : id ∈ recordIds s .location) :
    ∃ l, findLocation s id = some l :=
  exists_findKey h

theorem reviewed_items_expected {command : Command} (hn : command.namedIn s) :
    ∀ x ∈ command.reviewed .item, ∃ i ∈ s.items, i.id = x ∧
      itemExpectation i "" ∈ expectationsForCommand s command := by
  intro x hx
  cases command with
  | itemDelete id =>
      obtain rfl := List.mem_singleton.mp hx
      obtain ⟨i, hi⟩ := exists_findKey hn
      refine ⟨i, (findItem_mem hi).1, (findItem_mem hi).2, ?_⟩
      simp only [expectationsForCommand, findItem, hi, Option.elim]
      exact List.mem_singleton_self _
  | captureEmpty id itemIds =>
      obtain ⟨l, hl⟩ := exists_location hn.1
      obtain ⟨i, hi, hid, hexpected⟩ := items_expected hn.2 hx
      refine ⟨i, hi, hid, ?_⟩
      simp only [expectationsForCommand, hl, Option.elim]
      exact List.mem_cons_of_mem _ hexpected
  | locationDelete id descendantIds itemIds =>
      obtain ⟨l, hl⟩ := exists_location (hn.1 id List.mem_cons_self)
      obtain ⟨i, hi, hid, hexpected⟩ := items_expected hn.2 hx
      refine ⟨i, hi, hid, ?_⟩
      simp only [expectationsForCommand, hl, Option.elim]
      exact List.mem_append_right _ hexpected
  | _ => exact absurd hx List.not_mem_nil

theorem reviewed_locations_expected {command : Command} (hn : command.namedIn s) :
    ∀ x ∈ command.reviewed .location, ∃ l ∈ s.locations, l.id = x ∧
      locationExpectation l "" ∈ expectationsForCommand s command := by
  intro x hx
  cases command with
  | locationDelete id descendantIds itemIds =>
      obtain ⟨m, hm⟩ := exists_location (hn.1 id List.mem_cons_self)
      obtain ⟨l, hl, rfl⟩ := List.mem_map.mp (hn.1 x hx)
      refine ⟨l, hl, rfl, ?_⟩
      simp only [expectationsForCommand, hm, Option.elim]
      exact List.mem_append_left _ (List.mem_map_of_mem
        (List.mem_filter.mpr ⟨hl, List.contains_iff_mem.mpr hx⟩))
  | _ => exact absurd hx List.not_mem_nil

end Listed

/-! ## 4. Removed as reviewed -/

theorem history_of_destructive {command : Command} (hd : command.destructive = true) :
    command.isHistory = false := by
  cases command <;> first | rfl | cases hd

/-- What is written of an item in a record of the workspace is the item. -/
theorem findItem_of_read {t : WorkspaceState} {i : ItemRecord}
    (h : readPatchValue t .item i.id "" = .ok (encode i)) : findItem t i.id = some i := by
  have hv : ((findItem t i.id).map encode).getD .undefined = encode i := Except.ok.inj h
  cases hj : findItem t i.id with
  | none => rw [hj] at hv; cases hv
  | some j =>
      rw [hj] at hv
      exact congrArg some (encode_injective hv)

/-- A whole record that reads as expected is there. -/
theorem findLocation_of_read {t : WorkspaceState} {l : Location}
    (h : readPatchValue t .location l.id "" = .ok (encode l)) :
    findLocation t l.id = some l := by
  have hv : ((findLocation t l.id).map encode).getD .undefined = encode l := Except.ok.inj h
  cases hm : findLocation t l.id with
  | none => rw [hm] at hv; cases hv
  | some m =>
      rw [hm] at hv
      exact congrArg some (encode_injective hv)

section Accepted

variable [Host] {s t : WorkspaceState} {env : CommandEnvelope} {r : CommandResult}

/-- A destructive command takes away the records it lists, and no others. -/
theorem reviewing_of_accepted (hr : UniqueRecords s) (hd : env.command.destructive = true)
    (h : applyCommand s env = .ok r) : Reviewing s env.command r.state := by
  obtain ⟨-, ⟨-, h⟩ | ⟨hh, -⟩⟩ := applyCommand_ok h
  · simp only [applyNormalCommand, result_bind_ok, result_pure_ok] at h
    obtain ⟨change, hchange, u, hu, rfl⟩ := h
    have hreview : Reviewing s env.command u := by
      unfold normalPatches at hchange
      cases hc : env.command with
      | itemDelete id =>
          rw [show (normalizeCommandEnvelope env).command = .itemDelete id from hc] at hchange
          exact itemDelete_reviewing hr hchange hu
      | captureEmpty id itemIds =>
          rw [show (normalizeCommandEnvelope env).command = .captureEmpty id itemIds from hc]
            at hchange
          exact captureEmpty_reviewing hr hchange hu
      | locationDelete id descendantIds itemIds =>
          rw [show (normalizeCommandEnvelope env).command =
            .locationDelete id descendantIds itemIds from hc] at hchange
          exact locationDelete_reviewing hr hchange hu
      | _ => rw [hc] at hd; cases hd
    refine ⟨fun kind x => ?_, hreview.items, hreview.locations, hreview.named⟩
    rw [← hreview.gone kind x]
    cases kind <;> rfl
  · rw [history_of_destructive hd] at hh
    cases hh

/-- What the envelope expects holds where its command is accepted. -/
theorem conflicts_of_accepted (h : applyCommand t env = .ok r) :
    expectationConflicts t (normalizeCommandEnvelope env).id
      (normalizeCommandEnvelope env).expectations = .ok [] := by
  have hcheck := (applyCommand_ok h).1
  simp only [checkEnvelope, result_bind_ok] at hcheck
  obtain ⟨_, _, _, _, _, _, _, _, conflicts, hconflicts, hnone⟩ := hcheck
  cases conflicts with
  | nil => exact hconflicts
  | cons c cs => simp [checkIf] at hnone

variable {uuid now : String} {command : Command} {options : EnvelopeOptions}

/-- What is expected of a record as a whole reads so where the command is accepted. -/
theorem read_of_accepted (ho : options.expectations = none)
    (h : applyCommand t (createEnvelope uuid now s command options) = .ok r)
    {e : FieldExpectation} (he : e ∈ expectationsForCommand s command) {u : WorkspaceState}
    (hw : Watched u e) : readPatchValue t e.target e.id e.path = .ok e.value := by
  have hconflicts := conflicts_of_accepted h
  have hes : (normalizeCommandEnvelope (createEnvelope uuid now s command options)).expectations
      = (expectationsForCommand s command).map normalizeItemExpectation := by
    show List.map _ (options.expectations.getD _) = _
    rw [ho, Option.getD_none]
  rw [hes, expectationConflicts_nil] at hconflicts
  obtain ⟨v, hv, hmatch⟩ := hconflicts _ (List.mem_map_of_mem he)
  rw [hw.normal] at hv hmatch
  obtain ⟨w, hread, hm⟩ := hw.matches t
  rw [hread] at hv ⊢
  cases hv
  rw [hm.mp hmatch]

/-- The listed items are the same where the command is made and where it is accepted. -/
theorem listed_items (hn : command.namedIn s) (ho : options.expectations = none)
    (h : applyCommand t (createEnvelope uuid now s command options) = .ok r) :
    ∀ x ∈ command.reviewed .item, ∃ i ∈ s.items, i.id = x ∧ findItem t x = some i := by
  intro x hx
  obtain ⟨i, hi, rfl, he⟩ := reviewed_items_expected hn x hx
  -- the reading of one record is a reading of the workspace with that record alone
  have hw : Watched { s with items := [i] } (itemExpectation i "") :=
    .wholeItem (by simp [findItem, findKey])
  exact ⟨i, hi, rfl, findItem_of_read (read_of_accepted ho h he hw)⟩

/-- So are the listed locations. -/
theorem listed_locations (hn : command.namedIn s) (ho : options.expectations = none)
    (h : applyCommand t (createEnvelope uuid now s command options) = .ok r) :
    ∀ x ∈ command.reviewed .location, ∃ l ∈ s.locations, l.id = x ∧ findLocation t x = some l := by
  intro x hx
  obtain ⟨l, hl, rfl, he⟩ := reviewed_locations_expected hn x hx
  have hw : Watched { s with locations := [l] } (locationExpectation l "") :=
    .wholeLocation (by simp [findLocation, findKey])
  exact ⟨l, hl, rfl, findLocation_of_read (read_of_accepted ho h he hw)⟩

/-- **A destructive command removes what was reviewed, as it was reviewed.** Let the command
    be made and accepted in the workspace `s`, and its envelope be accepted in any workspace
    `t`, whatever happened in between. Then in `t`

    * exactly the listed records go, and they are all there was to remove in `t`: the item, the
      active items of the container, or everything at and below the location;
    * each of them was in `s`, and is in `t` the same record. -/
theorem reviewed_removed (uuid now : String) (s t : WorkspaceState) (hs : WellFormed s)
    (ht : WellFormed t) (command : Command) (hd : command.destructive = true)
    (options : EnvelopeOptions) (ho : options.expectations = none) (r r' : CommandResult)
    (hmade : applyCommand s (createEnvelope uuid now s command options) = .ok r)
    (hlater : applyCommand t (createEnvelope uuid now s command options) = .ok r') :
    (∀ kind x, x ∈ recordIds r'.state kind ↔
      x ∈ recordIds t kind ∧ x ∉ command.reviewed kind) ∧
    (∀ i ∈ t.items, i.id ∈ command.reviewed .item ↔ command.coversItem t i) ∧
    (∀ l ∈ t.locations, l.id ∈ command.reviewed .location ↔ command.coversLocation t l) ∧
    (∀ x ∈ command.reviewed .item, ∃ i, findItem s x = some i ∧ findItem t x = some i) ∧
    ∀ x ∈ command.reviewed .location, ∃ l, findLocation s x = some l ∧
      findLocation t x = some l := by
  have hins := reviewing_of_accepted hs.unique.records hd hmade
  have hint := reviewing_of_accepted ht.unique.records hd hlater
  refine ⟨hint.gone, hint.items, hint.locations, fun x hx => ?_, fun x hx => ?_⟩
  · obtain ⟨i, hi, rfl, hfound⟩ := listed_items hins.named ho hlater x hx
    exact ⟨i, hs.unique.findItem hi, hfound⟩
  · obtain ⟨l, hl, rfl, hfound⟩ := listed_locations hins.named ho hlater x hx
    exact ⟨l, hs.unique.findLocation hl, hfound⟩

end Accepted

/-- The left box with its lamps is deleted after another device has renamed the home. -/
theorem reviewed_removed_boxes : ∃ r', @applyCommand asciiHost renamedBoxes
      (createEnvelope "1" "2024-01-02T00:00:00.000Z" boxesState
        (.locationDelete "A" [] ["i1"]) {}) = .ok r' ∧
    recordIds r'.state .item = ["i2"] ∧
    ∀ x ∈ ["i1"], ∃ i, findItem boxesState x = some i ∧ findItem renamedBoxes x = some i := by
  let : Host := asciiHost
  let envelope := createEnvelope "1" "2024-01-02T00:00:00.000Z" boxesState
    (.locationDelete "A" [] ["i1"]) {}
  have hmade : (applyCommand boxesState envelope).isOk = true := by decide +kernel
  have hlater : (applyCommand renamedBoxes envelope).toOption.map
      (fun r => recordIds r.state .item) = some ["i2"] := by
    decide +kernel
  obtain ⟨r, hr⟩ := exists_of_isOk hmade
  obtain ⟨r', hr', hids⟩ := Option.map_eq_some_iff.mp hlater
  rw [toOption_eq_some] at hr'
  have hexact := reviewed_removed "1" "2024-01-02T00:00:00.000Z" boxesState renamedBoxes
    boxesState_wellFormed (boxesState_wellFormed.of_recorded ⟨rfl, rfl, rfl⟩)
    (.locationDelete "A" [] ["i1"]) rfl {} rfl r r' hr hr'
  exact ⟨r', hr', hids, hexact.2.2.2.1⟩

/-! ## 5. Reviewed where it was made -/

section Made

variable [Host] {s t : WorkspaceState} {r : CommandResult} {uuid now : String} {command : Command}
  {options : EnvelopeOptions}

omit [Host] in
/-- What is inside a space that goes is inside it where the command was made. -/
theorem inside_of_listed {id : String}
    (hlisted : ∀ m ∈ t.locations, ReflTransGen (Under t) m.id id → m ∈ s.locations) {a : String}
    (h : ReflTransGen (Under t) a id) : ReflTransGen (Under s) a id := by
  induction h using ReflTransGen.head_induction_on with
  | refl => exact .refl
  | head hab hb ih =>
      obtain ⟨m, hm, rfl, hp⟩ := hab
      exact .head ⟨m, hlisted m hm (.head ⟨m, hm, rfl, hp⟩ hb), rfl, hp⟩ ih

/-- **A destructive command removes only what was reviewed.** Let the command be made in the
    workspace `s`, with all it names there, and its envelope be accepted in a workspace `t` without
    two items or two locations of one identifier. Then

    * exactly the listed records go, and each was in `s` and is in `t` as it was;
    * the item, every active item in the container, or everything at and below the location,
      was in `s`, and there too. -/
theorem destroys_reviewed (uuid now : String) (s t : WorkspaceState) (ht : UniqueRecords t)
    (command : Command) (hd : command.destructive = true) (hn : command.namedIn s)
    (options : EnvelopeOptions) (ho : options.expectations = none) (r : CommandResult)
    (h : applyCommand t (createEnvelope uuid now s command options) = .ok r) :
    (∀ kind x, x ∈ recordIds r.state kind ↔ x ∈ recordIds t kind ∧ x ∉ command.reviewed kind) ∧
    (∀ x ∈ command.reviewed .item, ∃ i ∈ s.items, i.id = x ∧ i ∈ t.items) ∧
    (∀ x ∈ command.reviewed .location, ∃ l ∈ s.locations, l.id = x ∧ l ∈ t.locations) ∧
    (∀ i ∈ t.items, command.coversItem t i → i ∈ s.items ∧ command.coversItem s i) ∧
    ∀ l ∈ t.locations, command.coversLocation t l →
      l ∈ s.locations ∧ command.coversLocation s l := by
  have hint := reviewing_of_accepted ht hd h
  have hitems : ∀ x ∈ command.reviewed .item, ∃ i ∈ s.items, i.id = x ∧ i ∈ t.items := by
    intro x hx
    obtain ⟨i, hi, hid, hfound⟩ := listed_items hn ho h x hx
    exact ⟨i, hi, hid, (findItem_mem hfound).1⟩
  have hlocations : ∀ x ∈ command.reviewed .location,
      ∃ l ∈ s.locations, l.id = x ∧ l ∈ t.locations := by
    intro x hx
    obtain ⟨l, hl, hid, hfound⟩ := listed_locations hn ho h x hx
    exact ⟨l, hl, hid, (findLocation_mem hfound).1⟩
  have hsame : ∀ i ∈ t.items, command.coversItem t i → i ∈ s.items := by
    intro i hi hc
    obtain ⟨j, hj, hid, hjt⟩ := hitems i.id ((hint.items i hi).mpr hc)
    exact eq_of_key_eq ht.items hjt hi hid ▸ hj
  have hbelow : ∀ l ∈ t.locations, command.coversLocation t l → l ∈ s.locations := by
    intro l hl hc
    obtain ⟨m, hm, hid, hmt⟩ := hlocations l.id ((hint.locations l hl).mpr hc)
    exact eq_of_key_eq ht.locations hmt hl hid ▸ hm
  refine ⟨hint.gone, hitems, hlocations, fun i hi hc => ⟨hsame i hi hc, ?_⟩,
    fun l hl hc => ⟨hbelow l hl hc, ?_⟩⟩
  · cases command with
    | locationDelete id descendantIds itemIds => exact inside_of_listed hbelow hc
    | _ => exact hc
  · cases command with
    | locationDelete id descendantIds itemIds => exact inside_of_listed hbelow hc
    | _ => exact hc

end Made

/-- The right box inside the left one. -/
def nestedBoxes : WorkspaceState := { boxesState with
  locations := [plainLocation "A" "Left box" "L1" none,
    plainLocation "B" "Right box" "R1" (some "A")] }

/-- The same boxes, after the home got another name. -/
def renamedNested : WorkspaceState := { nestedBoxes with
  workspace := { nestedBoxes.workspace with name := "Flat", revision := 1 } }

/-- The left box is deleted with the right one inside it, after the home was renamed. -/
theorem destroys_reviewed_nested : ∃ r, @applyCommand asciiHost renamedNested
      (createEnvelope "1" "2024-01-02T00:00:00.000Z" nestedBoxes
        (.locationDelete "A" ["B"] ["i1", "i2"]) {}) = .ok r ∧
    recordIds r.state .item = [] ∧ recordIds r.state .location = [] ∧
    (∀ x ∈ ["i1", "i2"], ∃ i ∈ nestedBoxes.items, i.id = x ∧ i ∈ renamedNested.items) ∧
    ∀ x ∈ ["A", "B"], ∃ l ∈ nestedBoxes.locations, l.id = x ∧ l ∈ renamedNested.locations := by
  let : Host := asciiHost
  have hlater : (applyCommand renamedNested (createEnvelope "1" "2024-01-02T00:00:00.000Z"
      nestedBoxes (.locationDelete "A" ["B"] ["i1", "i2"]) {})).toOption.map
      (fun r => (recordIds r.state .item, recordIds r.state .location)) = some ([], []) := by
    decide +kernel
  obtain ⟨r, hr, hids⟩ := Option.map_eq_some_iff.mp hlater
  rw [toOption_eq_some] at hr
  have hexact := destroys_reviewed "1" "2024-01-02T00:00:00.000Z" nestedBoxes renamedNested
    ⟨by decide +kernel, by decide +kernel⟩ (.locationDelete "A" ["B"] ["i1", "i2"]) rfl
    ⟨by decide +kernel, by decide +kernel⟩ {} rfl r hr
  exact ⟨r, hr, (Prod.mk.inj hids).1, (Prod.mk.inj hids).2, hexact.2.1, hexact.2.2.1⟩

/-- The boxes before the lamps came. -/
def bareBoxes : WorkspaceState := { boxesState with items := [] }

/-- The boxes, after an archived lamp was put in the left one. -/
def archivedBoxes : WorkspaceState := { boxesState with
  items := boxesState.items ++
    [{ plainItem "i3" "Lamp" "A" with archivedAt := some "2024-01-01T00:00:00.000Z" }] }

/-- The boxes, with another item under the identifier of the lamps in the left one. -/
def twinnedBoxes : WorkspaceState := { boxesState with
  items := boxesState.items ++ [plainItem "i1" "Torch" "A"] }

/-- What a command made in the first workspace leaves of the items of the second. -/
def itemsAfter (s t : WorkspaceState) (command : Command) (options : EnvelopeOptions) :
    Option (List String) :=
  let : Host := asciiHost
  (applyCommand t (createEnvelope "1" "2024-01-02T00:00:00.000Z" s command options)).toOption.map
    fun r => recordIds r.state .item

/-- **What a review does not cover**: an item that was not there when its deletion was made goes;
    an archived item that came later stays in the emptied container; with other expectations a
    renamed item goes; and so does a second item under a listed identifier. -/
theorem review_uncovered :
    itemsAfter bareBoxes boxesState (.itemDelete "i1") {} = some ["i2"] ∧
      "i1" ∉ recordIds bareBoxes .item ∧
    itemsAfter boxesState archivedBoxes (.captureEmpty "A" ["i1"]) {} = some ["i2", "i3"] ∧
      (∃ i ∈ archivedBoxes.items, i.locationId = "A" ∧ i ∉ boxesState.items) ∧
    itemsAfter boxesState bulbBoxes (.itemDelete "i1") { expectations := some [] } = some ["i2"] ∧
      findItem boxesState "i1" ≠ findItem bulbBoxes "i1" ∧
    itemsAfter boxesState twinnedBoxes (.captureEmpty "A" ["i1", "i1"]) {} = some ["i2"] ∧
      ∃ i ∈ twinnedBoxes.items, i.id = "i1" ∧ i ∉ boxesState.items := by
  refine ⟨by decide +kernel, by decide +kernel, by decide +kernel,
    ⟨{ plainItem "i3" "Lamp" "A" with archivedAt := some "2024-01-01T00:00:00.000Z" },
      by decide +kernel, rfl, by decide +kernel⟩,
    by decide +kernel, by decide +kernel, by decide +kernel,
    ⟨plainItem "i1" "Torch" "A", by decide +kernel, rfl, by decide +kernel⟩⟩

end Stowplan
