/-
  File:      Stowplan/Domain/Expectations.lean
  Subject:   WHAT A COMMAND WAS MADE FROM (expectations.ts, `createEnvelope` in factories.ts),
  and the optimistic lock this makes of `applyCommand`.

  A device writes into the envelope of a command what it saw of the fields the command is
  about. The engine refuses the command when one of them has another value by then. Every
  expectation is a reading of one record (`Watched`), and the values of a field are compared
  as the typed values they encode; so nothing slips through the comparison, and nothing is
  refused that did not change.

  * `watched_of_created`: what `expectationsForCommand` collects are readings;
  * `Watched.matches`: the engine's comparison of a reading is equality;
  * `lock_exact`: a command made in one workspace passes the check in another exactly when all
    it watches reads the same there.
-/
import Stowplan.Domain.Placement

namespace Stowplan

open Keyed JsValue Relation

/-! ## 1. What is expected of a record -/

/-- `path ? json(record[path]) : json(record)`. -/
def fieldAt (record : JsValue) (path : String) : JsValue :=
  if path = "" then record else record.get path

/-- `locationExpectation(location, path)`. -/
def locationExpectation (location : Location) (path : String) : FieldExpectation where
  id := location.id
  path := path
  target := .location
  value := fieldAt (encode location) path

/-- `itemExpectation(item, path)`. -/
def itemExpectation (item : ItemRecord) (path : String) : FieldExpectation where
  id := item.id
  path := path
  target := .item
  value := fieldAt (encode item) path

/-- `planExpectation(plan, path)`. -/
def planExpectation (plan : MovePlan) (path : String) : FieldExpectation where
  id := plan.id
  path := path
  target := .plan
  value := fieldAt (encode plan) path

/-- The capture status of each location with one of the identifiers. -/
def statusExpectations (state : WorkspaceState) (ids : List String) : List FieldExpectation :=
  (state.locations.filter fun candidate => ids.contains candidate.id).map fun candidate =>
    locationExpectation candidate "captureStatus"

/-- Each item with one of the identifiers, as a whole. -/
def itemsExpectations (state : WorkspaceState) (ids : List String) : List FieldExpectation :=
  (state.items.filter fun candidate => ids.contains candidate.id).map fun candidate =>
    itemExpectation candidate ""

/-- `hierarchyParentExpectations`; without a new parent the argument is `undefined`. -/
def hierarchyParentExpectations (state : WorkspaceState) (location : Location) :
    Option (Option String) → List FieldExpectation
  | none => []
  | some parentId =>
    if parentId = location.parentId then []
    else statusExpectations state ([location.parentId, parentId].filterMap (·))

/-- `changes.parentId`. -/
def changedParent (changes : LocationChanges) : Option (Option String) :=
  changes.entries.findSome? fun
    | .parentId parentId => some parentId
    | _ => none

/-- The fields of an item that an edit of many items changes. -/
def bulkFieldExpectations (item : ItemRecord) : BulkEntry → List FieldExpectation
  | .constraints changes => changes.entries.map fun e => {
      id := item.id
      path := "constraints." ++ e.key
      target := .item
      value := (encode item.constraints).get e.key }
  | entry => [itemExpectation item entry.key]

/-- The expectations of one item of `item.bulkUpdate`. -/
def bulkExpectations (state : WorkspaceState) (update : BulkUpdate) : List FieldExpectation :=
  (findItem state update.id).elim [] fun item =>
    [itemExpectation item "locationId", itemExpectation item "archivedAt"] ++
      update.changes.entries.flatMap (bulkFieldExpectations item)

/-- The locations of the items with the identifiers. -/
def locationsOfItems (state : WorkspaceState) (ids : List String) : List String :=
  ids.filterMap fun id => (findItem state id).map (·.locationId)

/-- `expectationsForCommand(state, command)`. -/
def expectationsForCommand (state : WorkspaceState) : Command → List FieldExpectation
  | .workspaceRename _ => [{
      id := state.workspace.id
      path := "name"
      target := .workspace
      value := encode state.workspace.name }]
  | .locationUpdate id changes _ => (findLocation state id).elim [] fun location =>
      changes.entries.map (fun e => locationExpectation location e.key) ++
        hierarchyParentExpectations state location (changedParent changes)
  | .locationMove id parentId _ _ => (findLocation state id).elim [] fun location =>
      [locationExpectation location "parentId", locationExpectation location "order"] ++
        hierarchyParentExpectations state location (some parentId)
  | .locationReorder id _ => (findLocation state id).elim [] fun location =>
      [locationExpectation location "parentId", locationExpectation location "order"]
  | .locationArchive id _ => (findLocation state id).elim [] fun location =>
      [locationExpectation location "archivedAt"]
  | .captureEmpty id itemIds => (findLocation state id).elim [] fun location =>
      locationExpectation location "captureStatus" :: itemsExpectations state itemIds
  | .captureStatus id _ => (findLocation state id).elim [] fun location =>
      [locationExpectation location "captureStatus"]
  | .locationDelete id descendantIds itemIds => (findLocation state id).elim [] fun _ =>
      ((state.locations.filter fun candidate =>
          (id :: descendantIds).contains candidate.id).map fun candidate =>
        locationExpectation candidate "") ++ itemsExpectations state itemIds
  | .itemUpdate id changes => (findItem state id).elim [] fun item =>
      changes.entries.map fun e => itemExpectation item e.key
  | .itemReorder id _ => (findItem state id).elim [] fun item =>
      [itemExpectation item "order", itemExpectation item "version"]
  | .itemMove destinationId id _ reopenCompletedParents =>
      (findItem state id).elim [] fun item =>
        [itemExpectation item "locationId", itemExpectation item "quantity",
          itemExpectation item "version"] ++
          statusExpectations state
            (if reopenCompletedParents then [item.locationId, destinationId] else [])
  | .itemDelete id => (findItem state id).elim [] fun item => [itemExpectation item ""]
  | .itemBulkUpdate updates _ =>
      updates.flatMap (bulkExpectations state) ++
        (state.locations.filter fun location =>
          (locationsOfItems state (updates.map (·.id))).contains location.id).flatMap
            fun location => [locationExpectation location "captureStatus",
              locationExpectation location "archivedAt"]
  | .itemBulkCreate items _ => statusExpectations state (items.map (·.locationId))
  | .itemBulkMove destinationId itemIds reopenCompletedParents =>
      (itemIds.flatMap fun id => (findItem state id).elim [] fun item =>
        [itemExpectation item "locationId", itemExpectation item "version"]) ++
        (if reopenCompletedParents then
          statusExpectations state (destinationId :: locationsOfItems state itemIds)
        else [])
  | .planCreate _ => [{
      id := state.workspace.id
      path := "revision"
      target := .workspace
      value := encode state.workspace.revision }]
  | .planStepComplete planId _ => (findPlan state planId).elim [] fun plan =>
      [planExpectation plan "status", planExpectation plan "steps"]
  | .planStatus planId _ => (findPlan state planId).elim [] fun plan =>
      [planExpectation plan "status"]
  | _ => []

/-! ## 2. Envelopes -/

/-- The options of `createEnvelope`. -/
structure EnvelopeOptions where
  actorId : Option String := none
  authorization : Option CommandAuthorizationBasis := none
  deviceId : Option String := none
  expectations : Option (List FieldExpectation) := none
  id : Option String := none
  timestamp : Option String := none

/-- `createEnvelope(state, command, options)`, with what `newId` and `nowIso` make up. -/
def createEnvelope (uuid now : String) (state : WorkspaceState) (command : Command)
    (options : EnvelopeOptions) : CommandEnvelope where
  actorId := options.actorId.getD "local-user"
  authorization := options.authorization
  baseRevision := state.workspace.revision
  command := command
  deviceId := options.deviceId.getD "local-device"
  expectations := options.expectations.getD (expectationsForCommand state command)
  id := options.id.getD s!"cmd_{uuid}"
  timestamp := options.timestamp.getD now
  workspaceId := state.workspace.id

/-! ## 3. Expectations are readings -/

/-- The expectation is a reading of the workspace: a field, or a record as a whole. -/
inductive Watched (s : WorkspaceState) : FieldExpectation → Prop where
  | name : Watched s ⟨s.workspace.id, "name", .workspace, encode s.workspace.name⟩
  | revision : Watched s ⟨s.workspace.id, "revision", .workspace, encode s.workspace.revision⟩
  | item {i : ItemRecord} (e : ItemEntry) (h : findItem s i.id = some i) :
      Watched s ⟨i.id, e.key, .item, (e.here i).value⟩
  | wholeItem {i : ItemRecord} (h : findItem s i.id = some i) :
      Watched s ⟨i.id, "", .item, encode i⟩
  | location {l : Location} (e : LocationEntry) (h : findLocation s l.id = some l) :
      Watched s ⟨l.id, e.key, .location, (e.here l).value⟩
  | wholeLocation {l : Location} (h : findLocation s l.id = some l) :
      Watched s ⟨l.id, "", .location, encode l⟩
  | plan {p : MovePlan} (e : PlanEntry) (h : findPlan s p.id = some p) :
      Watched s ⟨p.id, e.key, .plan, (e.here p).value⟩

/-- The command sets whole fields of an item: its changes are keyed by the fields of the
    record, and the single constraints have no key there. -/
def Command.wholeFields : Command → Prop
  | .itemUpdate _ changes => ∀ e, ItemEntry.constraint e ∉ changes.entries
  | _ => True

section Created

variable {s : WorkspaceState}

/-- An expectation of a field of a location is watched. -/
theorem watched_location (e : LocationEntry) {l : Location} (h : findLocation s l.id = some l) :
    Watched s (locationExpectation l e.key) := by
  have hv : fieldAt (encode l) e.key = (e.here l).value := by cases e <;> rfl
  show Watched s ⟨l.id, e.key, .location, fieldAt (encode l) e.key⟩
  rw [hv]
  exact .location e h

/-- So for an item. -/
theorem watched_item (e : ItemEntry) (he : ∀ c, e ≠ .constraint c) {i : ItemRecord}
    (h : findItem s i.id = some i) : Watched s (itemExpectation i e.key) := by
  have hv : fieldAt (encode i) e.key = (e.here i).value := by
    cases e with
    | constraint c => exact absurd rfl (he c)
    | _ => rfl
  show Watched s ⟨i.id, e.key, .item, fieldAt (encode i) e.key⟩
  rw [hv]
  exact .item e h

/-- So for a plan. -/
theorem watched_plan (e : PlanEntry) {p : MovePlan} (h : findPlan s p.id = some p) :
    Watched s (planExpectation p e.key) := by
  have hv : fieldAt (encode p) e.key = (e.here p).value := by
    obtain ⟨_, _, _, sel, _, _, _⟩ := p
    cases e <;> cases sel <;> rfl
  show Watched s ⟨p.id, e.key, .plan, fieldAt (encode p) e.key⟩
  rw [hv]
  exact .plan e h

/-- So for the statuses of spaces. -/
theorem watched_statuses (hu : Unique s) (ids : List String) :
    ∀ e ∈ statusExpectations s ids, Watched s e := by
  intro e he
  obtain ⟨l, hl, rfl⟩ := List.mem_map.mp he
  exact watched_location (.captureStatus l.captureStatus)
    (hu.findLocation (List.mem_filter.mp hl).1)

/-- So for whole items. -/
theorem watched_items (hu : Unique s) (ids : List String) :
    ∀ e ∈ itemsExpectations s ids, Watched s e := by
  intro e he
  obtain ⟨i, hi, rfl⟩ := List.mem_map.mp he
  exact .wholeItem (hu.findItem (List.mem_filter.mp hi).1)

/-- So for the parents of a space. -/
theorem watched_parents (hu : Unique s) (l : Location) (parentId : Option (Option String)) :
    ∀ e ∈ hierarchyParentExpectations s l parentId, Watched s e := by
  intro e he
  cases parentId with
  | none => exact absurd he List.not_mem_nil
  | some p =>
      simp only [hierarchyParentExpectations] at he
      split at he
      · exact absurd he List.not_mem_nil
      · exact watched_statuses hu _ e he

theorem watched_none {e : FieldExpectation} (h : e ∈ ([] : List FieldExpectation)) :
    Watched s e :=
  absurd h List.not_mem_nil

/-- What is expected of a location, where there is one. -/
theorem watched_elim_location {id : String} {f : Location → List FieldExpectation}
    (h : ∀ l, findLocation s l.id = some l → ∀ e ∈ f l, Watched s e) :
    ∀ e ∈ (findLocation s id).elim [] f, Watched s e := by
  intro e he
  cases hl : findLocation s id with
  | none => rw [hl] at he; exact watched_none he
  | some l =>
      rw [hl] at he
      exact h l ((findLocation_mem hl).2.symm ▸ hl) e he

theorem watched_elim_item {id : String} {f : ItemRecord → List FieldExpectation}
    (h : ∀ i, findItem s i.id = some i → ∀ e ∈ f i, Watched s e) :
    ∀ e ∈ (findItem s id).elim [] f, Watched s e := by
  intro e he
  cases hi : findItem s id with
  | none => rw [hi] at he; exact watched_none he
  | some i =>
      rw [hi] at he
      exact h i ((findItem_mem hi).2.symm ▸ hi) e he

theorem watched_elim_plan {id : String} {f : MovePlan → List FieldExpectation}
    (h : ∀ p, findPlan s p.id = some p → ∀ e ∈ f p, Watched s e) :
    ∀ e ∈ (findPlan s id).elim [] f, Watched s e := by
  intro e he
  cases hp : findPlan s id with
  | none => rw [hp] at he; exact watched_none he
  | some p =>
      rw [hp] at he
      exact h p ((findPlan_mem hp).2.symm ▸ hp) e he

theorem watched_one {e : FieldExpectation} (h : Watched s e) : ∀ e' ∈ [e], Watched s e' := by
  intro e' he
  rw [List.mem_singleton.mp he]
  exact h

theorem watched_append {es es' : List FieldExpectation} (h : ∀ e ∈ es, Watched s e)
    (h' : ∀ e ∈ es', Watched s e) : ∀ e ∈ es ++ es', Watched s e := by
  intro e he
  rcases List.mem_append.mp he with he | he
  · exact h e he
  · exact h' e he

theorem watched_cons {e : FieldExpectation} {es : List FieldExpectation} (h : Watched s e)
    (h' : ∀ e' ∈ es, Watched s e') : ∀ e' ∈ e :: es, Watched s e' :=
  watched_append (watched_one h) h'

/-- The fields an edit of many items watches in one item. -/
theorem watched_bulk (update : BulkUpdate) : ∀ e ∈ bulkExpectations s update, Watched s e := by
  refine watched_elim_item fun i hi => ?_
  refine watched_append (watched_cons (watched_item (.locationId i.locationId) (by simp) hi)
    (watched_one (watched_item (.archivedAt i.archivedAt) (by simp) hi))) ?_
  intro e he
  obtain ⟨b, -, he⟩ := List.mem_flatMap.mp he
  cases b with
  | constraints changes =>
      obtain ⟨c, -, rfl⟩ := List.mem_map.mp he
      have hv : (encode i.constraints).get c.key = (c.here i.constraints).value := by
        cases c <;> rfl
      show Watched s ⟨i.id, "constraints." ++ c.key, .item, (encode i.constraints).get c.key⟩
      rw [hv]
      exact .item (.constraint c) hi
  | category v => exact watched_one (watched_item (.category v) (by simp) hi) e he
  | frequency v => exact watched_one (watched_item (.frequency v) (by simp) hi) e he
  | tags v => exact watched_one (watched_item (.tags v) (by simp) hi) e he

/-- **Whatever the command, its expectations are readings of the workspace it is made in.** -/
theorem watched_of_created (hu : Unique s) {command : Command} (hc : command.wholeFields) :
    ∀ e ∈ expectationsForCommand s command, Watched s e := by
  cases command with
  | workspaceRename name => exact watched_one .name
  | planCreate plan => exact watched_one .revision
  | locationUpdate id changes reopen =>
      refine watched_elim_location fun l hl => watched_append ?_ (watched_parents hu l _)
      intro e he
      obtain ⟨entry, -, rfl⟩ := List.mem_map.mp he
      exact watched_location entry hl
  | locationMove id parentId order reopen =>
      exact watched_elim_location fun l hl =>
        watched_append (watched_cons (watched_location (.parentId l.parentId) hl)
          (watched_one (watched_location (.order l.order) hl))) (watched_parents hu l _)
  | locationReorder id order =>
      exact watched_elim_location fun l hl =>
        watched_cons (watched_location (.parentId l.parentId) hl)
          (watched_one (watched_location (.order l.order) hl))
  | locationArchive id archived =>
      exact watched_elim_location fun l hl =>
        watched_one (watched_location (.archivedAt l.archivedAt) hl)
  | captureStatus id status =>
      exact watched_elim_location fun l hl =>
        watched_one (watched_location (.captureStatus l.captureStatus) hl)
  | captureEmpty id itemIds =>
      exact watched_elim_location fun l hl =>
        watched_cons (watched_location (.captureStatus l.captureStatus) hl)
          (watched_items hu itemIds)
  | locationDelete id descendantIds itemIds =>
      refine watched_elim_location fun l _ => watched_append ?_ (watched_items hu itemIds)
      intro e he
      obtain ⟨m, hm, rfl⟩ := List.mem_map.mp he
      exact .wholeLocation (hu.findLocation (List.mem_filter.mp hm).1)
  | itemUpdate id changes =>
      refine watched_elim_item fun i hi e he => ?_
      obtain ⟨entry, hentry, rfl⟩ := List.mem_map.mp he
      exact watched_item entry (fun c h => hc c (h ▸ hentry)) hi
  | itemReorder id order =>
      exact watched_elim_item fun i hi =>
        watched_cons (watched_item (.order i.order) (by simp) hi)
          (watched_one (watched_item (.version i.version) (by simp) hi))
  | itemDelete id => exact watched_elim_item fun i hi => watched_one (.wholeItem hi)
  | itemMove destinationId id quantity reopen =>
      exact watched_elim_item fun i hi =>
        watched_append (watched_cons (watched_item (.locationId i.locationId) (by simp) hi)
          (watched_cons (watched_item (.quantity i.quantity) (by simp) hi)
            (watched_one (watched_item (.version i.version) (by simp) hi))))
          (watched_statuses hu _)
  | itemBulkCreate items reopen => exact watched_statuses hu _
  | itemBulkUpdate updates reopen =>
      refine watched_append ?_ ?_
      · intro e he
        obtain ⟨u, -, he⟩ := List.mem_flatMap.mp he
        exact watched_bulk u e he
      · intro e he
        obtain ⟨l, hl, he⟩ := List.mem_flatMap.mp he
        have hl := hu.findLocation (List.mem_filter.mp hl).1
        exact watched_cons (watched_location (.captureStatus l.captureStatus) hl)
          (watched_one (watched_location (.archivedAt l.archivedAt) hl)) e he
  | itemBulkMove destinationId ids reopen =>
      refine watched_append ?_ ?_
      · intro e he
        obtain ⟨id, -, he⟩ := List.mem_flatMap.mp he
        exact watched_elim_item (fun i hi =>
          watched_cons (watched_item (.locationId i.locationId) (by simp) hi)
            (watched_one (watched_item (.version i.version) (by simp) hi))) e he
      · cases reopen with
        | false => exact fun _ => watched_none
        | true => exact watched_statuses hu _
  | planStepComplete planId stepId =>
      exact watched_elim_plan fun p hp =>
        watched_cons (watched_plan (.status p.status) hp)
          (watched_one (watched_plan (.steps p.steps) hp))
  | planStatus planId status =>
      exact watched_elim_plan fun p hp => watched_one (watched_plan (.status p.status) hp)
  | _ => exact fun _ => watched_none

end Created

/-! ## 4. The lock -/

section Lock

variable {s t : WorkspaceState}

/-- A path that can be read in a record reads nothing where there is no record. -/
theorem readPath_undefined {v w : JsValue} {path : String} (h : readPath v path = .ok w) :
    readPath .undefined path = .ok .undefined := by
  unfold readPath at h ⊢
  split
  · rfl
  · rename_i hne
    rw [if_neg hne, result_bind_ok] at h
    obtain ⟨keys, hkeys, -⟩ := h
    rw [hkeys]
    cases keys <;> rfl

theorem equal_undefined {v : JsValue} : equal .undefined v = true ↔ v = .undefined := by
  cases v <;> simp [equal]

/-- The comparison of a field is the plain one. -/
theorem matches_field {e : FieldExpectation} (h : e.path ≠ "") (v : JsValue) :
    expectationMatches e v = equal v e.value := by
  simp [expectationMatches, h]

/-- The comparison of a whole record that has an order is the plain one, too. -/
theorem matches_ordered {e : FieldExpectation} (h : e.target = .item → e.value.hasOwn "order")
    (v : JsValue) : expectationMatches e v = equal v e.value := by
  unfold expectationMatches
  by_cases ht : e.target = .item
  · rw [h ht]
    simp
  · simp [ht]

section Fields

variable {ε α : Type} [Entity α] [FieldEntry ε α]

/-- A field is read as its value, or as nothing where there is no record. -/
theorem read_entry (e : ε) (a : α) (o : Option α) :
    readPath ((o.map encode).getD .undefined) (FieldEntry.key e) =
      .ok ((o.map fun b => FieldEntry.value (FieldEntry.here e b)).getD .undefined) := by
  cases o with
  | none => exact readPath_undefined (FieldEntry.read e a)
  | some b => exact FieldEntry.read e b

/-- Comparing the values of a field is comparing the fields. -/
theorem equal_entry {e : ε} (hh : ∀ a b : α, FieldEntry.here (FieldEntry.here e a) b =
    FieldEntry.here e b) (a : α) (o : Option α) :
    equal ((o.map fun b => FieldEntry.value (FieldEntry.here e b)).getD .undefined)
        (FieldEntry.value (FieldEntry.here e a)) = true ↔
      (o.map fun b => FieldEntry.value (FieldEntry.here e b)).getD .undefined =
        FieldEntry.value (FieldEntry.here e a) := by
  cases o with
  | none =>
      rw [Option.map_none, Option.getD_none, equal_undefined, eq_comm]
  | some b =>
      constructor
      · intro h
        refine congrArg FieldEntry.value ?_
        rw [← hh a b]
        exact FieldEntry.eq_of_equal _ b (by rw [hh a b]; exact h)
      · intro h
        rw [h]
        exact equal_self _ (FieldEntry.proper_value _)

end Fields

/-- Comparing whole records is comparing them as values. -/
theorem equal_record {α : Type} [Exact α] (a : α) (o : Option α) :
    equal ((o.map encode).getD .undefined) (encode a) = true ↔
      (o.map encode).getD .undefined = encode a := by
  cases o with
  | none =>
      rw [Option.map_none, Option.getD_none, equal_undefined, eq_comm]
  | some b =>
      rw [Option.map_some, Option.getD_some, equal_encode]
      exact ⟨congrArg encode, encode_injective⟩

theorem read_workspace_revision (w : Workspace) :
    readPath (encode w) "revision" = .ok (encode w.revision) :=
  readPath_of_keys (by decide) (pathKeys_of_plain (by decide +kernel)) (readKeys_own (by simp))

/-- The field of the workspace itself, in a workspace with the same identifier or another. -/
theorem matches_workspace {α : Type} [Exact α] {path : String} (hp : path ≠ "")
    {f : Workspace → α} (hread : ∀ w, readPath (encode w) path = .ok (encode (f w)))
    (w : Workspace) (t : WorkspaceState) :
    ∃ v, readPatchValue t .workspace w.id path = .ok v ∧
      (expectationMatches ⟨w.id, path, .workspace, encode (f w)⟩ v = true ↔
        v = encode (f w)) := by
  have hplain : ∀ v, expectationMatches ⟨w.id, path, .workspace, encode (f w)⟩ v =
      equal v (encode (f w)) := fun v => matches_field hp v
  by_cases hid : t.workspace.id = w.id
  · refine ⟨encode (f t.workspace), ?_, ?_⟩
    · show readPath (if t.workspace.id = w.id then _ else _) _ = _
      rw [if_pos hid]
      exact hread _
    · rw [hplain, equal_encode]
      exact ⟨congrArg encode, encode_injective⟩
  · refine ⟨.undefined, ?_, ?_⟩
    · show readPath (if t.workspace.id = w.id then _ else _) _ = _
      rw [if_neg hid]
      exact readPath_undefined (hread w)
    · rw [hplain, equal_undefined, eq_comm]

/-- **What a command watches is compared as it is**: the reading there is never fails, and it
    passes the comparison exactly when it is the reading the command was made from. -/
theorem Watched.matches {e : FieldExpectation} (h : Watched s e) (t : WorkspaceState) :
    ∃ v, readPatchValue t e.target e.id e.path = .ok v ∧
      (expectationMatches e v = true ↔ v = e.value) := by
  cases h with
  | name => exact matches_workspace (by decide) read_workspace_name s.workspace t
  | revision => exact matches_workspace (by decide) read_workspace_revision s.workspace t
  | @item i entry hi =>
      refine ⟨_, read_entry entry i (findItem t i.id), ?_⟩
      rw [matches_field (itemKey_ne entry)]
      refine equal_entry (e := entry) (fun a b => ?_) i (findItem t i.id)
      cases entry with
      | constraint c => cases c <;> rfl
      | _ => rfl
  | @location l entry hl =>
      refine ⟨_, read_entry entry l (findLocation t l.id), ?_⟩
      rw [matches_field (plainKey_ne (plain_location entry))]
      exact equal_entry (e := entry) (fun a b => by cases entry <;> rfl) l
        (findLocation t l.id)
  | @plan p entry hp =>
      refine ⟨_, read_entry entry p (findPlan t p.id), ?_⟩
      rw [matches_field (plainKey_ne (plain_plan entry))]
      exact equal_entry (e := entry) (fun a b => by cases entry <;> rfl) p (findPlan t p.id)
  | @wholeItem i hi =>
      refine ⟨_, rfl, ?_⟩
      rw [matches_ordered fun _ => rfl]
      exact equal_record i (findItem t i.id)
  | @wholeLocation l hl =>
      refine ⟨_, rfl, ?_⟩
      rw [matches_ordered fun h => by cases h]
      exact equal_record l (findLocation t l.id)

/-- What a command watches reads, where the command is made, as the command says. -/
theorem Watched.read {e : FieldExpectation} (h : Watched s e) :
    readPatchValue s e.target e.id e.path = .ok e.value := by
  cases h with
  | name =>
      show readPath (if s.workspace.id = s.workspace.id then _ else _) _ = _
      rw [if_pos rfl]
      exact read_workspace_name _
  | revision =>
      show readPath (if s.workspace.id = s.workspace.id then _ else _) _ = _
      rw [if_pos rfl]
      exact read_workspace_revision _
  | @item i entry hi =>
      show readPath (((findItem s i.id).map encode).getD .undefined) _ = _
      rw [hi]
      exact FieldEntry.read entry i
  | @location l entry hl =>
      show readPath (((findLocation s l.id).map encode).getD .undefined) _ = _
      rw [hl]
      exact FieldEntry.read entry l
  | @plan p entry hp =>
      show readPath (((findPlan s p.id).map encode).getD .undefined) _ = _
      rw [hp]
      exact FieldEntry.read entry p
  | @wholeItem i hi =>
      show readPath (((findItem s i.id).map encode).getD .undefined) _ = _
      rw [hi]
      rfl
  | @wholeLocation l hl =>
      show readPath (((findLocation s l.id).map encode).getD .undefined) _ = _
      rw [hl]
      rfl

/-- The old names a command may come with are none of those it is made with now. -/
theorem Watched.normal {e : FieldExpectation} (h : Watched s e) :
    normalizeItemExpectation e = e := by
  cases h with
  | @item i entry hi =>
      have hnotes : entry.key ≠ "notes" := by
        cases entry with
        | constraint c => cases c <;> simp only [ItemEntry.key, ConstraintEntry.key] <;> decide
        | _ => simp only [ItemEntry.key]; decide
      simp only [normalizeItemExpectation, ne_eq, not_true_eq_false, if_false, if_neg hnotes,
        if_neg (itemKey_ne entry)]
  | wholeItem hi => rfl
  | _ => rfl

/-- The check finds no conflict exactly when every reading passes the comparison. -/
theorem expectationConflicts_nil {commandId : String} {es : List FieldExpectation} :
    expectationConflicts t commandId es = .ok [] ↔
      ∀ e ∈ es, ∃ v, readPatchValue t e.target e.id e.path = .ok v ∧
        expectationMatches e v = true := by
  induction es with
  | nil => simp [expectationConflicts]
  | cons e es ih =>
      simp only [expectationConflicts, result_bind_ok, result_pure_ok, List.mem_cons,
        forall_eq_or_imp]
      constructor
      · intro h
        obtain ⟨v, hv, more, hmore, happ⟩ := h
        obtain ⟨hnone, rfl⟩ := List.append_eq_nil_iff.mp happ
        refine ⟨⟨v, hv, ?_⟩, ih.mp hmore⟩
        by_contra hne
        rw [if_neg hne] at hnone
        cases hnone
      · intro h
        obtain ⟨⟨v, hv, hm⟩, hrest⟩ := h
        exact ⟨v, hv, [], ih.mpr hrest, by rw [if_pos hm]; rfl⟩

/-- The check of a command made in one workspace, in another. -/
theorem conflicts_created (hu : Unique s) {command : Command} (hc : command.wholeFields)
    (commandId : String) :
    expectationConflicts t commandId
        ((expectationsForCommand s command).map normalizeItemExpectation) = .ok [] ↔
      ∀ e ∈ expectationsForCommand s command,
        readPatchValue t e.target e.id e.path = .ok e.value := by
  have hw := watched_of_created hu hc
  have hmap : (expectationsForCommand s command).map normalizeItemExpectation =
      expectationsForCommand s command := by
    conv_rhs => rw [← List.map_id (expectationsForCommand s command)]
    exact List.map_congr_left fun e he => (hw e he).normal
  rw [hmap, expectationConflicts_nil]
  refine forall₂_congr fun e he => ?_
  obtain ⟨v, hv, hm⟩ := (hw e he).matches t
  rw [hv]
  constructor
  · intro h
    obtain ⟨w, hw, hmatch⟩ := h
    cases hw
    rw [hm.mp hmatch]
  · intro h
    exact ⟨v, rfl, hm.mpr (Except.ok.inj h)⟩

/-- **The optimistic lock is exact.** Let a command be made in the workspace `s`, as
    `createEnvelope` makes it. In any workspace `t`, the check of its expectations finds no
    conflict if and only if every field and record it watches reads the same in `t` as it did
    in `s`; so where it was made, it has none. -/
theorem lock_exact (uuid now : String) (s t : WorkspaceState) (hu : Unique s)
    (command : Command) (hc : command.wholeFields) (options : EnvelopeOptions)
    (ho : options.expectations = none) :
    let envelope := normalizeCommandEnvelope (createEnvelope uuid now s command options)
    (expectationConflicts t envelope.id envelope.expectations = .ok [] ↔
      ∀ e ∈ expectationsForCommand s command,
        readPatchValue t e.target e.id e.path = readPatchValue s e.target e.id e.path) ∧
    expectationConflicts s envelope.id envelope.expectations = .ok [] := by
  intro envelope
  have hes : envelope.expectations =
      (expectationsForCommand s command).map normalizeItemExpectation := by
    show List.map _ (options.expectations.getD _) = _
    rw [ho, Option.getD_none]
  have hread : ∀ e ∈ expectationsForCommand s command,
      readPatchValue s e.target e.id e.path = .ok e.value :=
    fun e he => (watched_of_created hu hc e he).read
  rw [hes, conflicts_created hu hc, conflicts_created hu hc]
  refine ⟨forall₂_congr fun e he => ?_, hread⟩
  rw [hread e he]

end Lock

/-! ## 5. Two boxes -/

/-- The same boxes, after the home got another name. -/
def renamedBoxes : WorkspaceState := { boxesState with
  workspace := { boxesState.workspace with name := "Flat", revision := 1 } }

/-- The same boxes, after the lamps of the left one got another name. -/
def bulbBoxes : WorkspaceState := { boxesState with
  items := boxesState.items.map fun i => if i.id = "i1" then { i with name := "Bulb" } else i }

/-- A command that names the lamps of the left box passes its check after the home was renamed,
    and does not after the lamps were. -/
theorem lock_exact_lamps : let envelope := normalizeCommandEnvelope (createEnvelope "1"
      "2024-01-02T00:00:00.000Z" boxesState
      (.itemUpdate "i1" ⟨[.name "Torch"], by decide +kernel⟩) {})
    expectationConflicts renamedBoxes envelope.id envelope.expectations = .ok [] ∧
      expectationConflicts bulbBoxes envelope.id envelope.expectations ≠ .ok [] := by
  have hunique := @WellFormed.unique asciiHost _ boxesState_wellFormed
  have hwhole : (Command.itemUpdate "i1" ⟨[.name "Torch"], by decide +kernel⟩).wholeFields := by
    intro e he
    simp at he
  refine ⟨(lock_exact "1" "2024-01-02T00:00:00.000Z" boxesState renamedBoxes hunique _ hwhole {}
    rfl).1.mpr (by decide +kernel), fun hnone => ?_⟩
  have hsame := (lock_exact "1" "2024-01-02T00:00:00.000Z" boxesState bulbBoxes hunique _ hwhole {}
    rfl).1.mp hnone
  revert hsame
  decide +kernel

end Stowplan
