/-
  File:      Stowplan/Domain/Commands/Normal.lean
  Subject:   WHAT EACH COMMAND CHANGES (`normalPatches` of commands.ts).

  One definition for each branch of the source, under the name of its command: the checks in the
  order the source makes them, then the label, the patches and the subjects of the change. All
  patches are computed from the state before the command, except in a bulk move, which moves one
  item after another on a copy.
-/
import Stowplan.Domain.Entries
import Stowplan.Domain.Commands.Guards

namespace Stowplan

open Keyed Forest

/-- What a command of `normalPatches` does: its label, its patches and the records it is about. -/
structure Change where
  label : String
  patches : List FieldPatch
  subjectIds : List String

/-- `throw new DomainError("NO_CHANGES", …)`. -/
def refuseNoChanges (condition : Bool) (message : String) : Result Unit :=
  refuse condition "NO_CHANGES" message

/-- `assertAllowedChanges`: every key is an allowed one. -/
def assertAllowedChanges (keys allowed : List String) (action : String) : Result Unit :=
  match keys.find? fun key => !allowed.contains key with
  | some key => .error (.domain "INVALID_CHANGES" s!"{key} cannot be changed through {action}")
  | none => .ok ()

/-- The keys `location.update` may change. -/
def locationChangeKeys : List String :=
  ["code", "conditions", "description", "dimensions", "kind", "name", "order", "parentId", "tags"]

/-- The keys `item.update` may change. -/
def itemChangeKeys : List String :=
  ["category", "constraints", "description", "dimensions", "frequency", "name", "quantity", "tags",
    "unit"]

section Branches

variable [Host] (state : WorkspaceState) (envelope : CommandEnvelope)

/-! ## 1. Workspace and locations -/

/-- `case "workspace.rename"`. -/
def workspaceRename (name : String) : Result Change := do
  let name := trim name
  refuse (name == "") "NAME_REQUIRED" "Workspace name is required"
  refuseNoChanges (name == state.workspace.name) s!"Workspace is already named {name}"
  return {
    label := s!"Renamed workspace to {name}"
    patches := [patch .workspace state.workspace.id "name" (encode state.workspace.name)
      (encode name)]
    subjectIds := [state.workspace.id] }

/-- `case "location.create"`. -/
def locationCreate (location : Location) : Result Change := do
  validateLocation state location none
  checkIf (location.active && isSet location.parentId)
    (assertCaptureContentsEditable state [(.addLocation, location.parentId)])
  let parent := location.parentId.getD ""
  let progress ← (if isSet location.parentId then
      captureProgressPatches state parent envelope.timestamp
    else .ok [])
  return {
    label := s!"Created {location.name}"
    patches :=
      (if isSet location.parentId then planInvalidationPatches state [] [parent] else []) ++
      [patch .location location.id "" .undefined (encode location)] ++ progress
    subjectIds := [location.id] }

/-- `"parentId" in changes && changes.parentId !== location.parentId`. -/
def changesParent (location : Location) (changes : LocationChanges) : Bool :=
  changes.entries.any fun
    | .parentId p => p != location.parentId
    | _ => false

/-- The code and the name of a change, as they are stored. -/
def normalizedLocationEntry (next : Location) : LocationEntry → LocationEntry
  | .code _ => .code next.code
  | .name _ => .name next.name
  | e => e

/-- The location with the changes written over it. -/
def changedLocation (location : Location) (changes : LocationChanges) (timestamp : String) :
    Location :=
  let next := { putAll changes.entries location with updatedAt := timestamp }
  { next with code := Host.toUpperCase (trim next.code), name := trim next.name }

/-- The progress patches of the parents a location leaves and enters. -/
def parentProgress (source destination : Option String) (reopenCompletedParents : Bool) :
    Result (List FieldPatch) :=
  if reopenCompletedParents then
    moveCaptureProgressPatches state source destination envelope.timestamp
  else if isSet destination then
    captureProgressPatches state (destination.getD "") envelope.timestamp
  else .ok []

/-- `case "location.update"`: details, and the parent where it is among them. -/
def locationUpdate (id : String) (changes : LocationChanges) (reopenCompletedParents : Bool) :
    Result Change := do
  let location ← requireActiveLocation state id
  let keys := changes.entries.map LocationEntry.key
  assertAllowedChanges keys locationChangeKeys "location.update"
  refuse (keys.contains "archivedAt" || keys.contains "captureStatus" ||
      (keys.contains "order" && !changesParent location changes) || keys.contains "updatedAt")
    "STRUCTURAL_LOCATION_UPDATE"
    "Use the dedicated archive or capture-status action for this change"
  let next := changedLocation location changes envelope.timestamp
  validateLocation state next (some location.id)
  let changedEntries := (changes.entries.map (normalizedLocationEntry next)).filter fun e =>
    !equal (e.here location).value e.value
  refuseNoChanges changedEntries.isEmpty s!"No changes to save for {location.name}"
  let moves := next.parentId ≠ location.parentId
  let progress ← (if moves then
      parentProgress state envelope location.parentId next.parentId reopenCompletedParents
    else .ok [])
  checkIf (moves && !reopenCompletedParents)
    (assertCaptureContentsEditable state
      [(.moveLocationOut, location.parentId), (.moveLocationIn, next.parentId)])
  return {
    label := if reopenCompletedParents && !progress.isEmpty then
        s!"Updated {location.name} and reopened affected spaces"
      else s!"Updated {location.name}"
    patches :=
      (changedEntries.map fun e =>
        patch .location location.id e.key (e.here location).value e.value) ++
      [patch .location location.id "updatedAt" (encode location.updatedAt)
        (encode envelope.timestamp)] ++
      (if ["conditions", "dimensions", "kind", "parentId", "tags"].any
          (fun field => changedEntries.any fun e => e.key == field) then
        planInvalidationPatches state [] ([some location.id, next.parentId].filterMap (·))
      else []) ++
      (if moves then progress else [])
    subjectIds := location.id :: uniq (progress.map (·.id)) }

/-- `case "location.move"`. -/
def locationMove (id : String) (parentId : Option String) (order : Option JsNumber)
    (reopenCompletedParents : Bool) : Result Change := do
  let location ← requireActiveLocation state id
  refuse (match parentId with
    | some p => blank p
    | none => false) "INVALID_PARENT" "A moved location needs a parent ID or top-level placement"
  refuse (match order with
    | some x => !x.isFinite
    | none => false) "INVALID_ORDER" "Location order must be a number"
  refuse (parentId = some location.id) "LOCATION_CYCLE" "A location cannot contain itself"
  checkIf (isSet parentId) (do
    let _ ← requireActiveLocation state (parentId.getD "")
    refuse ((descendantsOf state location.id).any fun c => some c.id = parentId) "LOCATION_CYCLE"
      "A location cannot move inside its descendant")
  let nextOrder := order.getD location.order
  let moves := parentId ≠ location.parentId
  refuseNoChanges (!moves && nextOrder.strictEq location.order)
    s!"{location.name} is already in that position"
  checkIf (moves && !reopenCompletedParents)
    (assertCaptureContentsEditable state
      [(.moveLocationOut, location.parentId), (.moveLocationIn, parentId)])
  let progress ← (if moves then
      parentProgress state envelope location.parentId parentId reopenCompletedParents
    else .ok [])
  return {
    label := if moves then
        (if reopenCompletedParents && !progress.isEmpty then
          s!"Moved {location.name} and reopened affected spaces"
        else s!"Moved {location.name}")
      else s!"Reordered {location.name}"
    patches :=
      (if moves then
        patch .location location.id "parentId" (encode location.parentId) (encode parentId) ::
        planInvalidationPatches state [] ([some location.id, parentId].filterMap (·))
      else []) ++
      [patch .location location.id "updatedAt" (encode location.updatedAt)
        (encode envelope.timestamp)] ++
      (match order with
        | some x => [patch .location location.id "order" (encode location.order) (encode x)]
        | none => []) ++
      progress
    subjectIds := location.id :: uniq (progress.map (·.id)) }

/-- `case "location.reorder"`. -/
def locationReorder (id : String) (order : JsNumber) : Result Change := do
  let location ← requireActiveLocation state id
  refuse (!order.isFinite) "INVALID_ORDER" "Location order must be a number"
  refuseNoChanges (order.strictEq location.order) s!"{location.name} is already in that position"
  return {
    label := s!"Reordered {location.name}"
    patches := [patch .location location.id "order" (encode location.order) (encode order),
      patch .location location.id "updatedAt" (encode location.updatedAt)
        (encode envelope.timestamp)]
    subjectIds := [location.id] }

/-- `case "location.archive"`: archived only when empty, restored only below an active parent. -/
def locationArchive (id : String) (archived : Bool) : Result Change := do
  let location ← requireLocation state id
  refuseNoChanges (isSet location.archivedAt == archived)
    (location.name ++ " is already " ++ if archived then "archived" else "available")
  let archivedAt := if archived then some envelope.timestamp else none
  checkIf archived (do
    refuse ((descendantsOf state location.id).any (·.active)) "ARCHIVE_HAS_DESCENDANTS"
      s!"{location.name} has live nested spaces; move or archive them first"
    refuse (state.items.any fun i => i.locationId = location.id && i.active)
      "ARCHIVE_HAS_CONTENTS" s!"{location.name} has item contents; move or delete them first")
  checkIf (!archived)
    (validateLocation state { location with archivedAt := none } (some location.id))
  checkIf (isSet location.parentId && isSet location.archivedAt != archived)
    (assertCaptureContentsEditable state
      [(if archived then .archiveLocation else .restoreLocation, location.parentId)])
  let progress ← (if !archived && isSet location.parentId then
      captureProgressPatches state (location.parentId.getD "") envelope.timestamp
    else .ok [])
  return {
    label := (if archived then "Archived " else "Restored ") ++ location.name
    patches := [patch .location location.id "archivedAt" (encode location.archivedAt)
        (encode archivedAt),
      patch .location location.id "updatedAt" (encode location.updatedAt)
        (encode envelope.timestamp)] ++
      planInvalidationPatches state [] ([some location.id, location.parentId].filterMap (·)) ++
      progress
    subjectIds := [location.id] }

/-- `case "location.delete"`: the space with what is inside, as the caller has reviewed it. -/
def locationDelete (id : String) (descendantIds itemIds : List String) : Result Change := do
  let location ← requireLocation state id
  let descendants := descendantsOf state location.id
  let locationIds := location.id :: descendants.map (·.id)
  let contents := sortStrings
    ((state.items.filter fun i => locationIds.contains i.locationId).map (·.id))
  refuse (sortStrings descendantIds != sortStrings (descendants.map (·.id)) ||
      sortStrings itemIds != contents) "DELETE_REVIEW_STALE"
    "Contents changed after deletion review; review the subtree again"
  let items ← contents.mapM (requireItem state)
  assertCaptureContentsEditable state
    (((location :: descendants).filter fun c => c.active && isSet c.parentId).map
        (fun c => (.deleteLocation, c.parentId)) ++
      (items.filter (·.active)).map fun i => (.deleteItem, some i.locationId))
  return {
    label := s!"Deleted {location.name} and its reviewed contents"
    patches := planInvalidationPatches state contents locationIds ++
      (items.map fun i => patch .item i.id "" (encode i) .undefined) ++
      (descendants.reverse.map fun c => patch .location c.id "" (encode c) .undefined) ++
      [patch .location location.id "" (encode location) .undefined]
    subjectIds := locationIds ++ contents }

/-! ## 2. Capture -/

/-- The location has an active child. -/
def hasLiveChild (id : String) : Bool :=
  state.locations.any fun c => c.parentId = some id && c.active

/-- The active items directly in a location. -/
def directItems (id : String) : List ItemRecord :=
  state.items.filter fun i => i.locationId = id && i.active

/-- `case "capture.empty"`: the items of a container go, as the caller has reviewed them. -/
def captureEmpty (id : String) (itemIds : List String) : Result Change := do
  let location ← requireActiveLocation state id
  refuse itemIds.isEmpty "EMPTY_REVIEW_STALE" "Choose an occupied container before emptying it"
  refuse (hasLiveChild state location.id) "NOT_EMPTY"
    "Move or remove nested spaces before marking this container known empty"
  let directs := directItems state location.id
  let directIds := sortStrings (directs.map (·.id))
  refuse (sortStrings itemIds != directIds) "EMPTY_REVIEW_STALE"
    "Contents changed after confirmation; review the container again"
  return {
    label := s!"Emptied {location.name} and marked it known empty"
    patches := planInvalidationPatches state directIds [location.id] ++
      (directs.map fun i => patch .item i.id "" (encode i) .undefined) ++
      [patch .location location.id "captureStatus" (encode location.captureStatus)
          (encode CaptureStatus.knownEmpty),
        patch .location location.id "updatedAt" (encode location.updatedAt)
          (encode envelope.timestamp)]
    subjectIds := location.id :: directIds }

/-- `case "capture.status"`. -/
def captureStatus (id : String) (status : CaptureStatus) : Result Change := do
  let location ← requireActiveLocation state id
  refuseNoChanges (location.captureStatus = status)
    s!"{location.name} is already marked {replaceUnderscore status.word}"
  refuse (status = .knownEmpty && !(directItems state location.id).isEmpty) "NOT_EMPTY"
    "A location with recorded items cannot be known empty"
  refuse (status = .knownEmpty && hasLiveChild state location.id) "NOT_EMPTY"
    "A location with a live nested space cannot be known empty"
  return {
    label := s!"Marked {location.name} {replaceUnderscore status.word}"
    patches := planInvalidationPatches state [] [location.id] ++
      [patch .location location.id "captureStatus" (encode location.captureStatus)
          (encode status),
        patch .location location.id "updatedAt" (encode location.updatedAt)
          (encode envelope.timestamp)]
    subjectIds := [location.id] }

/-! ## 3. Items -/

/-- `case "item.create"`. -/
def itemCreate (item : ItemRecord) : Result Change := do
  validateItem state item
  refuse (state.items.any fun i => i.id = item.id) "ITEM_EXISTS"
    "An item with this ID already exists"
  checkIf item.active
    (assertCaptureContentsEditable state [(.addItem, some item.locationId)])
  let progress ← captureProgressPatches state item.locationId envelope.timestamp
  return {
    label := s!"Recorded {Host.numberText item.quantity} {item.unit} {item.name}"
    patches := planInvalidationPatches state [] [item.locationId] ++
      [patch .item item.id "" .undefined (encode item)] ++ progress
    subjectIds := [item.id, item.locationId] }

/-- The loop over the imported items, with the identifiers met so far. -/
def checkImported : List String → List ItemRecord → Result Unit
  | _, [] => .ok ()
  | seen, item :: rest => do
    validateItem state item
    refuse (seen.contains item.id) "DUPLICATE_ITEM_ID" "Imported item IDs must be unique"
    refuse (state.items.any fun i => i.id = item.id) "ITEM_EXISTS"
      "An imported item ID already exists"
    checkImported (item.id :: seen) rest

/-- `s` where there is not exactly one. -/
def plural (count : Nat) : String := if count = 1 then "" else "s"

/-- `case "item.bulkCreate"`. -/
def itemBulkCreate (items : List ItemRecord) (reopenCompletedParents : Bool) :
    Result Change := do
  refuse items.isEmpty "EMPTY_IMPORT" "Import at least one item record"
  checkImported state [] items
  let destinationIds := uniq (items.map (·.locationId))
  let destinations ← destinationIds.mapM (requireActiveLocation state)
  let completed := destinations.filter (·.captureStatus.complete)
  checkIf (!reopenCompletedParents)
    (assertCaptureContentsEditable state (destinationIds.map fun id => (.addItem, some id)))
  let progress ← bulkCreateCaptureProgressPatches state destinationIds envelope.timestamp
    reopenCompletedParents
  return {
    label := s!"Imported {items.length} item record{plural items.length}" ++
      (if reopenCompletedParents && !completed.isEmpty then " and reopened affected spaces"
      else "")
    patches := planInvalidationPatches state [] destinationIds ++
      (items.map fun i => patch .item i.id "" .undefined (encode i)) ++ progress
    subjectIds := uniq (items.map (·.id)) ++ destinationIds }

/-- The paths and values of a bulk change: the constraints one by one. -/
def BulkEntry.leaves : BulkEntry → List ItemEntry
  | .category v => [.category v]
  | .constraints v => v.entries.map .constraint
  | .frequency v => [.frequency v]
  | .tags v => [.tags v]

/-- The patches of the changed fields of an item, with its timestamp and version. -/
def itemFieldPatches (item : ItemRecord) (entries : List ItemEntry) (timestamp : String)
    (version : Int) : List FieldPatch :=
  (entries.map fun e => patch .item item.id e.key (e.here item).value e.value) ++
    [patch .item item.id "updatedAt" (encode item.updatedAt) (encode timestamp),
      patch .item item.id "version" (encode item.version) (encode version)]

/-- The entries that differ from what the item has. -/
def changedItemEntries (item : ItemRecord) (entries : List ItemEntry) : List ItemEntry :=
  entries.filter fun e => !equal (e.here item).value e.value

/-- The loop over the edits of many items: the items that change, and their patches. -/
def bulkUpdateLoop : List String → List BulkUpdate → Result (List ItemRecord × List FieldPatch)
  | _, [] => .ok ([], [])
  | seen, update :: rest => do
    refuse (blank update.id) "INVALID_BULK_UPDATE" "Every item edit needs an item ID and changes"
    refuse (seen.contains update.id) "DUPLICATE_ITEM_ID" "Edited item IDs must be unique"
    let item ← requireActiveItem state update.id
    let _ ← requireActiveLocation state item.locationId
    let leaves := update.changes.entries.flatMap BulkEntry.leaves
    validateItem state (putAll leaves item)
    let entries := changedItemEntries item leaves
    if entries.isEmpty then bulkUpdateLoop (update.id :: seen) rest
    else do
      let version ← nextItemVersion item
      let (items, patches) ← bulkUpdateLoop (update.id :: seen) rest
      return (item :: items, itemFieldPatches item entries envelope.timestamp version ++ patches)

/-- `case "item.bulkUpdate"`. -/
def itemBulkUpdate (updates : List BulkUpdate) (reopenCompletedParents : Bool) :
    Result Change := do
  refuse updates.isEmpty "EMPTY_BULK_UPDATE" "Select at least one item to edit"
  let (changedItems, itemPatches) ← bulkUpdateLoop state envelope [] updates
  refuseNoChanges changedItems.isEmpty "No changes to save for the selected items"
  let locationIds := uniq (changedItems.map (·.locationId))
  checkIf (!reopenCompletedParents)
    (assertCaptureContentsEditable state (locationIds.map fun id => (.updateItem, some id)))
  let locations ← locationIds.mapM (requireActiveLocation state)
  let reopened := locations.any (·.captureStatus.complete)
  let progress ← bulkMoveCaptureProgressPatches state (locationIds.map some) none
    envelope.timestamp
  return {
    label := s!"Updated {changedItems.length} item record{plural changedItems.length}" ++
      (if reopened then " and reopened affected spaces" else "")
    patches := planInvalidationPatches state (changedItems.map (·.id)) locationIds ++
      itemPatches ++ progress
    subjectIds := changedItems.map (·.id) ++ locationIds }

/-- The name and the unit of a change, as they are stored. -/
def normalizedItemEntry (next : ItemRecord) : ItemEntry → ItemEntry
  | .name _ => .name next.name
  | .unit _ => .unit next.unit
  | e => e

/-- The item with the changes written over it. -/
def changedItem (item : ItemRecord) (changes : ItemChanges) (timestamp : String)
    (version : Int) : ItemRecord :=
  let next := { putAll changes.entries item with
    updatedAt := timestamp
    version := version }
  { next with name := trim next.name, unit := trim next.unit }

/-- `case "item.update"`. -/
def itemUpdate (id : String) (changes : ItemChanges) : Result Change := do
  let item ← requireItem state id
  let keys := changes.entries.map ItemEntry.key
  assertAllowedChanges keys itemChangeKeys "item.update"
  refuse (["locationId", "archivedAt", "order", "updatedAt", "version"].any (keys.contains ·))
    "STRUCTURAL_ITEM_UPDATE" "Use the dedicated move, reorder, or archive action for this change"
  let version ← nextItemVersion item
  let next := changedItem item changes envelope.timestamp version
  validateItem state next
  let changedEntries := changedItemEntries item (changes.entries.map (normalizedItemEntry next))
  refuseNoChanges changedEntries.isEmpty s!"No changes to save for {item.name}"
  checkIf item.active
    (assertCaptureContentsEditable state [(.updateItem, some item.locationId)])
  return {
    label := s!"Updated {item.name}"
    patches :=
      (if ["category", "constraints", "dimensions", "frequency", "quantity", "tags", "unit"].any
          (fun field => changedEntries.any fun e => e.key == field) then
        planInvalidationPatches state [item.id] [item.locationId]
      else []) ++
      itemFieldPatches item changedEntries envelope.timestamp version
    subjectIds := [item.id] }

/-- `case "item.reorder"`. -/
def itemReorder (id : String) (order : JsNumber) : Result Change := do
  let item ← requireItem state id
  refuse (!order.isFinite) "INVALID_ORDER" "Item order must be a number"
  refuseNoChanges (order.strictEq item.order) s!"{item.name} is already in that position"
  checkIf item.active
    (assertCaptureContentsEditable state [(.reorderItems, some item.locationId)])
  let version ← nextItemVersion item
  return {
    label := s!"Reordered {item.name}"
    patches := [patch .item item.id "order" (encode item.order) (encode order),
      patch .item item.id "updatedAt" (encode item.updatedAt) (encode envelope.timestamp),
      patch .item item.id "version" (encode item.version) (encode version)]
    subjectIds := [item.id, item.locationId] }

/-- `case "item.delete"`. -/
def itemDelete (id : String) : Result Change := do
  let item ← requireItem state id
  checkIf item.active
    (assertCaptureContentsEditable state [(.deleteItem, some item.locationId)])
  return {
    label := s!"Deleted {item.name}"
    patches := planInvalidationPatches state [item.id] [item.locationId] ++
      [patch .item item.id "" (encode item) .undefined]
    subjectIds := [item.id, item.locationId] }

/-- The progress patches of the locations items leave and of the one they enter. -/
def moveProgress (sourceIds : List String) (destinationId : String)
    (reopenCompletedParents : Bool) : Result (List FieldPatch) :=
  if reopenCompletedParents then
    bulkMoveCaptureProgressPatches state (sourceIds.map some) (some destinationId)
      envelope.timestamp
  else captureProgressPatches state destinationId envelope.timestamp

/-- `case "item.move"`: a quantity of an item, which may split or merge records. -/
def itemMove (destinationId id : String) (quantity : JsNumber)
    (reopenCompletedParents : Bool) : Result Change := do
  let item ← requireActiveItem state id
  let patches ← moveItemPatches state item destinationId quantity envelope.id envelope.timestamp
  checkIf (!reopenCompletedParents)
    (assertCaptureContentsEditable state
      [(.moveItemOut, some item.locationId), (.moveItemIn, some destinationId)])
  let progress ← moveProgress state envelope [item.locationId] destinationId
    reopenCompletedParents
  let moved := s!"Moved {Host.numberText quantity} {item.unit} {item.name}"
  return {
    label := if reopenCompletedParents && !progress.isEmpty then
        moved ++ " and reopened affected spaces"
      else moved
    patches := planInvalidationPatches state [item.id] [item.locationId, destinationId] ++
      patches ++ progress
    subjectIds := [item.id, item.locationId, destinationId] }

/-- The loop of a bulk move: each item is moved on the copy the moves before left. -/
def bulkMoveLoop (destinationId : String) :
    WorkspaceState → List String → Result (List FieldPatch)
  | _, [] => .ok []
  | working, id :: rest => do
    let item ← requireActiveItem working id
    let patches ← moveItemPatches working item destinationId item.quantity
      s!"{envelope.id}_{id}" envelope.timestamp
    let working ← applyPatches working patches
    let more ← bulkMoveLoop destinationId working rest
    return patches ++ more

/-- The selected items that are not at the destination yet. -/
def movableIds (destinationId : String) : List String → Result (List String)
  | [] => .ok []
  | id :: rest => do
    let item ← requireActiveItem state id
    let more ← movableIds destinationId rest
    return if item.locationId ≠ destinationId then id :: more else more

/-- `case "item.bulkMove"`. -/
def itemBulkMove (destinationId : String) (itemIds : List String)
    (reopenCompletedParents : Bool) : Result Change := do
  refuse itemIds.isEmpty "EMPTY_SELECTION" "Select at least one item"
  let _ ← requireActiveLocation state destinationId
  let ids := uniq itemIds
  let movable ← movableIds state destinationId ids
  refuse movable.isEmpty "ALREADY_THERE" "Selected items are already in that location"
  let patches ← bulkMoveLoop envelope destinationId state movable
  let items ← movable.mapM (requireItem state)
  let sourceIds := items.map (·.locationId)
  checkIf (!reopenCompletedParents)
    (assertCaptureContentsEditable state
      (sourceIds.map (fun id => (.moveItemOut, some id)) ++ [(.moveItemIn, some destinationId)]))
  let progress ← moveProgress state envelope sourceIds destinationId reopenCompletedParents
  let moved := if movable.length = ids.length then
      s!"Moved {movable.length} item record{plural movable.length}"
    else s!"Moved {movable.length} of {ids.length} item records"
  return {
    label := if reopenCompletedParents && !progress.isEmpty then
        moved ++ " and reopened affected spaces"
      else moved
    patches := planInvalidationPatches state movable
        (uniq (sourceIds.flatMap fun id => [id, destinationId])) ++
      patches ++ progress
    subjectIds := uniq (movable ++ [destinationId]) }

/-! ## 4. Plans -/

/-- `assertPlanSelection(state, plan, step)`. -/
def assertPlanSelection (plan : MovePlan) (step : Option PlanStep) : Result Unit :=
  match (planSelectionIssue state.household plan.selection).or
      (step.bind fun step => planSelectionStepIssue state.household plan.selection step) with
  | some message => .error (.domain "INVALID_PLAN_SELECTION" message)
  | none => .ok ()

/-- `step.quantity === item.quantity`. -/
def sameQuantity (quantity : Option JsNumber) (x : JsNumber) : Bool :=
  match quantity with
  | some q => q.strictEq x
  | none => false

/-- The destination is the location itself or inside it. -/
def insideOf (id destinationId : String) : Bool :=
  id = destinationId || (descendantsOf state id).any fun c => c.id = destinationId

/-- Every weight is finite. -/
def PlanWeights.valid (w : PlanWeights) : Bool :=
  [w.accessibility, w.capacity, w.grouping, w.moveCost, w.suitability].all (·.isFinite)

/-- `PLAN_STEP_STALE`: the record no longer matches the planned move. -/
def refuseStale (condition : Bool) (name : String) : Result Unit :=
  refuse condition "PLAN_STEP_STALE" s!"{name} no longer matches the planned move"

/-- One step of a new plan. -/
def checkNewStep (plan : MovePlan) (step : PlanStep) : Result Unit := do
  assertPlanSelection state plan (some step)
  refuse step.done "INVALID_PLAN_STEP" "A new plan cannot contain completed steps"
  let source ← requireActiveLocation state step.sourceId
  let destination ← requireActiveLocation state step.destinationId
  refuse (source.id = destination.id) "INVALID_PLAN_STEP"
    "A plan move needs a different destination"
  if step.type = .item && isSet step.itemId then do
    let item ← requireItem state (step.itemId.getD "")
    refuse (!item.active) "PLAN_STEP_STALE"
      s!"{item.name} was archived after this plan was generated"
    refuseStale (step.locationId ≠ none || item.locationId ≠ step.sourceId ||
      !sameQuantity step.quantity item.quantity) item.name
  else if step.type = .location && isSet step.locationId then do
    let location ← requireActiveLocation state (step.locationId.getD "")
    refuseStale (step.itemId ≠ none || step.quantity ≠ none ||
      location.parentId ≠ some step.sourceId) location.name
    refuse (insideOf state location.id step.destinationId) "LOCATION_CYCLE"
      "The planned container move would create a cycle"
  else .error (.domain "INVALID_PLAN_STEP" "Plan step has no movable subject")

/-- The loop over the steps of a new plan, with the identifiers met so far. -/
def checkNewSteps (plan : MovePlan) : List String → List PlanStep → Result Unit
  | _, [] => .ok ()
  | seen, step :: rest => do
    refuse (blank step.id || !step.score.isFinite) "INVALID_PLAN_STEP" "A plan step is malformed"
    refuse (seen.contains step.id) "DUPLICATE_PLAN_STEP" "Plan step IDs must be unique"
    checkNewStep state plan step
    checkNewSteps plan (step.id :: seen) rest

/-- `case "plan.create"`. -/
def planCreate (plan : MovePlan) : Result Change := do
  refuse (blank plan.id || blank plan.name || !plan.weights.valid) "INVALID_PLAN"
    "The new plan is malformed"
  refuse plan.steps.isEmpty "EMPTY_PLAN" "The plan has no moves"
  assertPlanSelection state plan none
  refuse (plan.status ≠ .active) "INVALID_PLAN" "A new plan must start active"
  refuse (state.plans.any fun p => p.id = plan.id) "PLAN_EXISTS"
    "A plan with this ID already exists"
  checkNewSteps state plan [] plan.steps
  return {
    label := s!"Created plan {plan.name}"
    patches := (state.plans.filter fun p => p.status = .active).map discardPatch ++
      [patch .plan plan.id "" .undefined (encode plan)]
    subjectIds := [plan.id] }

/-- One unfinished step of a plan made active again. -/
def checkActiveStep (plan : MovePlan) (step : PlanStep) : Result Unit := do
  assertPlanSelection state plan (some step)
  let source ← requireActiveLocation state step.sourceId
  let destination ← requireActiveLocation state step.destinationId
  refuse (source.id = destination.id) "PLAN_STEP_STALE"
    "A plan move needs a different destination"
  if step.type = .item && isSet step.itemId then do
    let item ← requireItem state (step.itemId.getD "")
    refuseStale (!item.active || item.locationId ≠ step.sourceId || step.locationId ≠ none ||
      !sameQuantity step.quantity item.quantity) item.name
  else if step.type = .location && isSet step.locationId then do
    let location ← requireActiveLocation state (step.locationId.getD "")
    refuseStale (step.itemId ≠ none || step.quantity ≠ none ||
      location.parentId ≠ some step.sourceId || insideOf state location.id step.destinationId)
      location.name
  else .error (.domain "INVALID_PLAN_STEP" "Plan step has no movable subject")

/-- `assertPlanCanActivate(state, plan)`: its open steps still fit the workspace. -/
def assertPlanCanActivate (plan : MovePlan) : Result Unit := do
  assertPlanSelection state plan none
  refuse plan.steps.isEmpty "EMPTY_PLAN" "An active plan needs at least one move"
  refuse (plan.steps.all (·.done)) "PLAN_COMPLETE"
    "A fully completed plan cannot be made active again"
  (plan.steps.filter fun s => !s.done).forM (checkActiveStep state plan)

/-- `case "plan.status"`. -/
def planStatus (planId : String) (status : PlanStatus) : Result Change := do
  let plan ← requirePlan state planId
  refuseNoChanges (plan.status = status) s!"{plan.name} is already marked {status.word}"
  refuse (status = .active &&
      state.plans.any fun p => p.id ≠ plan.id && p.status = .active) "ACTIVE_PLAN_EXISTS"
    "Discard the current active plan first"
  checkIf (status = .active) (assertPlanCanActivate state plan)
  refuse (status = .completed && plan.steps.any fun s => !s.done) "PLAN_INCOMPLETE"
    "Complete every move before marking the plan completed"
  refuse (status = .active && !plan.steps.isEmpty && plan.steps.all (·.done)) "PLAN_COMPLETE"
    "A fully completed plan cannot be made active again"
  return {
    label := s!"Marked {plan.name} {status.word}"
    patches := [patch .plan plan.id "status" (encode plan.status) (encode status)]
    subjectIds := [plan.id] }

/-- The physical patches of a step. -/
def stepPatches (step : PlanStep) : Result (List FieldPatch) := do
  if step.type = .item && isSet step.itemId then do
    let item ← requireItem state (step.itemId.getD "")
    let _ ← requireActiveLocation state step.sourceId
    let _ ← requireActiveLocation state step.destinationId
    refuse (!item.active || item.locationId ≠ step.sourceId ||
      !sameQuantity step.quantity item.quantity) "PLAN_STEP_STALE"
      s!"{item.name} is no longer at the planned source"
    let patches ← moveItemPatches state item step.destinationId
      (step.quantity.getD item.quantity) envelope.id envelope.timestamp
    let progress ← moveCaptureProgressPatches state (some step.sourceId)
      (some step.destinationId) envelope.timestamp
    return patches ++ progress
  else if step.type = .location && isSet step.locationId then do
    let location ← requireActiveLocation state (step.locationId.getD "")
    refuse (location.parentId ≠ some step.sourceId) "PLAN_STEP_STALE"
      s!"{location.name} is no longer at the planned source"
    refuse (insideOf state location.id step.destinationId) "LOCATION_CYCLE"
      "The planned container move would create a cycle"
    let _ ← requireActiveLocation state step.destinationId
    let progress ← moveCaptureProgressPatches state (some step.sourceId)
      (some step.destinationId) envelope.timestamp
    return [patch .location location.id "parentId" (encode location.parentId)
        (encode (some step.destinationId)),
      patch .location location.id "updatedAt" (encode location.updatedAt)
        (encode envelope.timestamp)] ++ progress
  else .error (.domain "INVALID_PLAN_STEP" "Plan step has no movable subject")

/-- The steps with one of them completed. -/
def completeStep (steps : List PlanStep) (step : PlanStep) (timestamp : String) :
    List PlanStep :=
  setFirst PlanStep.id step.id { step with completedAt := some timestamp } steps

/-- `case "plan.step.complete"`: the first open step of the only active plan is carried out. -/
def planStepComplete (planId stepId : String) : Result Change := do
  let plan ← requirePlan state planId
  refuse (plan.status ≠ .active) "PLAN_NOT_ACTIVE" "Only an active plan can execute a move"
  refuse (1 < (state.plans.filter fun p => p.status = .active).length) "MULTIPLE_ACTIVE_PLANS"
    "Replace or discard plans until only one active plan remains"
  let step ← orThrow (findKey PlanStep.id stepId plan.steps) "PLAN_STEP_NOT_FOUND"
    "Plan step was not found"
  refuse step.done "PLAN_STEP_COMPLETE" "Plan step is already complete"
  assertPlanSelection state plan (some step)
  refuse ((plan.steps.takeWhile fun s => s.id ≠ step.id).any fun s => !s.done)
    "PLAN_OUT_OF_ORDER" "Complete earlier plan moves before this one"
  let physical ← stepPatches state envelope step
  let nextSteps := completeStep plan.steps step envelope.timestamp
  let nextStatus := if nextSteps.all (·.done) then PlanStatus.completed else plan.status
  return {
    label := "Completed plan step: " ++ step.explanation.head?.getD "move"
    patches := physical ++
      [patch .plan plan.id "steps" (encode plan.steps) (encode nextSteps),
        patch .plan plan.id "status" (encode plan.status) (encode nextStatus)]
    subjectIds := [plan.id, (step.itemId.or step.locationId).getD ""].filter (· ≠ "") }

/-! ## 5. All of them -/

/-- `normalPatches(state, envelope)`: the branch of each command. -/
def normalPatches : Result Change :=
  match envelope.command with
  | .workspaceRename name => workspaceRename state name
  | .locationCreate location => locationCreate state envelope location
  | .locationUpdate id changes reopen => locationUpdate state envelope id changes reopen
  | .locationMove id parentId order reopen => locationMove state envelope id parentId order reopen
  | .locationReorder id order => locationReorder state envelope id order
  | .locationArchive id archived => locationArchive state envelope id archived
  | .locationDelete id descendantIds itemIds => locationDelete state id descendantIds itemIds
  | .captureEmpty id itemIds => captureEmpty state envelope id itemIds
  | .captureStatus id status => captureStatus state envelope id status
  | .itemCreate item => itemCreate state envelope item
  | .itemBulkCreate items reopen => itemBulkCreate state envelope items reopen
  | .itemUpdate id changes => itemUpdate state envelope id changes
  | .itemBulkUpdate updates reopen => itemBulkUpdate state envelope updates reopen
  | .itemReorder id order => itemReorder state envelope id order
  | .itemDelete id => itemDelete state id
  | .itemMove destinationId id quantity reopen =>
      itemMove state envelope destinationId id quantity reopen
  | .itemBulkMove destinationId itemIds reopen =>
      itemBulkMove state envelope destinationId itemIds reopen
  | .planCreate plan => planCreate state plan
  | .planStepComplete planId stepId => planStepComplete state envelope planId stepId
  | .planStatus planId status => planStatus state planId status
  | .historyUndo _ | .historyReapply _ | .historyBatchUndo _ | .historyBatchRedo _ =>
      .error (.domain "UNSUPPORTED_COMMAND" "Unsupported command")

end Branches

end Stowplan
