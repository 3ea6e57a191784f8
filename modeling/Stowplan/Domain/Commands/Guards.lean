/-
  File:      Stowplan/Domain/Commands/Guards.lean
  Subject:   WHAT THE COMMANDS SHARE (commands.ts): looking records up, checking new ones, the
  capture status that contents set in motion, the plans a change makes stale, moving an item.

  Every function returns its value or what it throws, in the order the source checks.
-/
import Stowplan.Domain.Import
import Stowplan.Domain.Patches

namespace Stowplan

open Keyed Forest

/-! ## 1. Looking up -/

/-- `findLocation(state, id)`. -/
def findLocation (state : WorkspaceState) (id : String) : Option Location :=
  findKey Location.id id state.locations

/-- `findItem(state, id)`. -/
def findItem (state : WorkspaceState) (id : String) : Option ItemRecord :=
  findKey ItemRecord.id id state.items

/-- `findPlan(state, id)`. -/
def findPlan (state : WorkspaceState) (id : String) : Option MovePlan :=
  findKey MovePlan.id id state.plans

/-- `requireLocation(state, id)`. -/
def requireLocation (state : WorkspaceState) (id : String) : Result Location :=
  orThrow (findLocation state id) "LOCATION_NOT_FOUND" s!"Location {id} was not found"

/-- `requireActiveLocation(state, id)`. -/
def requireActiveLocation (state : WorkspaceState) (id : String) : Result Location := do
  let location ← requireLocation state id
  refuse (!location.active) "LOCATION_ARCHIVED" s!"{location.name} is archived"
  return location

/-- `requireItem(state, id)`. -/
def requireItem (state : WorkspaceState) (id : String) : Result ItemRecord :=
  orThrow (findItem state id) "ITEM_NOT_FOUND" s!"Item {id} was not found"

/-- `requireActiveItem(state, id)`. -/
def requireActiveItem (state : WorkspaceState) (id : String) : Result ItemRecord := do
  let item ← requireItem state id
  refuse (!item.active) "ITEM_ARCHIVED" s!"{item.name} is archived"
  return item

/-- `nextItemVersion(item)`. -/
def nextItemVersion (item : ItemRecord) : Result Int := do
  refuse (!JsNumber.safeInt item.version || decide (JsNumber.maxSafeInteger ≤ item.version))
    "ITEM_VERSION_EXHAUSTED" s!"{item.name} has an invalid or exhausted version counter"
  return item.version + 1

/-- `requirePlan(state, id)`. -/
def requirePlan (state : WorkspaceState) (id : String) : Result MovePlan :=
  orThrow (findPlan state id) "PLAN_NOT_FOUND" s!"Plan {id} was not found"

/-- `descendantsOf(state, id)`: a search that visits each location once. -/
def descendantsOf (state : WorkspaceState) (id : String) : List Location :=
  descend Location.id Location.parentId state.locations (state.locations.length + 1) [id] [id]

/-- `[...new Set(values)]`: every value once, where it comes first. -/
def uniq (values : List String) : List String := fresh id [] values

/-! ## 2. Capture status -/

/-- `completeCaptureStatuses.has(status)`. -/
def CaptureStatus.complete : CaptureStatus → Bool
  | .counted | .knownEmpty => true
  | .inProgress | .uncounted => false

/-- `captureContentActions`. -/
inductive ContentAction where
  | addItem | addLocation | archiveLocation | deleteItem | deleteLocation | moveItemIn
  | moveItemOut | moveLocationIn | moveLocationOut | reorderItems | restoreLocation | updateItem

/-- `captureContentActions`. -/
def ContentAction.text : ContentAction → String
  | .addItem => "adding an item"
  | .addLocation => "adding a nested space"
  | .archiveLocation => "archiving a nested space"
  | .deleteItem => "deleting an item"
  | .deleteLocation => "deleting a nested space"
  | .moveItemIn => "moving an item into it"
  | .moveItemOut => "moving an item out of it"
  | .moveLocationIn => "moving a nested space into it"
  | .moveLocationOut => "moving a nested space out of it"
  | .reorderItems => "reordering its items"
  | .restoreLocation => "restoring a nested space"
  | .updateItem => "editing an item"

/-- The loop of `assertCaptureContentsEditable`, with the locations checked so far. -/
def captureContentsLoop (state : WorkspaceState) :
    List String → List (ContentAction × Option String) → Result Unit
  | _, [] => .ok ()
  | checked, (action, locationId) :: rest =>
    if !isSet locationId || checked.contains (locationId.getD "") then
      captureContentsLoop state checked rest
    else do
      let location ← requireLocation state (locationId.getD "")
      refuse (location.active && location.captureStatus.complete) "CAPTURE_COMPLETE"
        s!"Reopen {location.name} before {action.text}"
      captureContentsLoop state (locationId.getD "" :: checked) rest

/-- `assertCaptureContentsEditable(state, changes)`: a completed space keeps its contents until it
    is reopened. -/
def assertCaptureContentsEditable (state : WorkspaceState)
    (changes : List (ContentAction × Option String)) : Result Unit :=
  captureContentsLoop state [] changes

/-- The two patches that set a location's capture status to in progress. -/
def progressPatches (location : Location) (timestamp : String) : List FieldPatch :=
  [patch .location location.id "captureStatus" (encode location.captureStatus)
      (encode CaptureStatus.inProgress),
    patch .location location.id "updatedAt" (encode location.updatedAt) (encode timestamp)]

/-- `captureProgressPatches(state, locationId, timestamp)`. -/
def captureProgressPatches (state : WorkspaceState) (locationId timestamp : String) :
    Result (List FieldPatch) := do
  let location ← requireActiveLocation state locationId
  return if location.captureStatus ≠ .uncounted && location.captureStatus ≠ .knownEmpty then []
    else progressPatches location timestamp

/-- The patches of the locations among `ids` that `should` be set in progress. -/
def progressEach (state : WorkspaceState) (timestamp : String) (should : Location → Bool) :
    List String → Result (List FieldPatch)
  | [] => .ok []
  | id :: ids => do
    let location ← requireActiveLocation state id
    let rest ← progressEach state timestamp should ids
    return (if should location then progressPatches location timestamp else []) ++ rest

/-- `bulkMoveCaptureProgressPatches(state, sourceIds, destinationId, timestamp)`. -/
def bulkMoveCaptureProgressPatches (state : WorkspaceState) (sourceIds : List (Option String))
    (destinationId : Option String) (timestamp : String) : Result (List FieldPatch) :=
  progressEach state timestamp
    (fun location => location.captureStatus.complete ||
      (some location.id = destinationId && location.captureStatus = .uncounted))
    (uniq ((sourceIds ++ [destinationId]).filterMap id))

/-- `moveCaptureProgressPatches(state, sourceId, destinationId, timestamp)`. -/
def moveCaptureProgressPatches (state : WorkspaceState) (sourceId destinationId : Option String)
    (timestamp : String) : Result (List FieldPatch) :=
  bulkMoveCaptureProgressPatches state [sourceId] destinationId timestamp

/-- `bulkCreateCaptureProgressPatches(state, destinationIds, timestamp, reopenCompletedParents)`. -/
def bulkCreateCaptureProgressPatches (state : WorkspaceState) (destinationIds : List String)
    (timestamp : String) (reopenCompletedParents : Bool) : Result (List FieldPatch) :=
  progressEach state timestamp
    (fun location => location.captureStatus = .uncounted ||
      (reopenCompletedParents && location.captureStatus.complete))
    (uniq destinationIds)

/-! ## 3. Plans made stale -/

/-- `current.parentId ? state.locations.find(…) : undefined`. -/
def locationAbove (state : WorkspaceState) (location : Location) : Option Location :=
  match location.parentId with
  | none => none
  | some p => if p = "" then none else findLocation state p

/-- A location and the ones around it, up to the root. -/
def withAncestors (state : WorkspaceState) (id : String) : List String :=
  (climb Location.id (locationAbove state) (state.locations.map Location.id).length []
    (findLocation state id)).map (·.id)

/-- The step is unfinished and about one of the records. -/
def stepAffected (items locations : List String) (step : PlanStep) : Bool :=
  !step.done &&
    ((isSet step.itemId && items.contains (step.itemId.getD "")) ||
      (isSet step.locationId && locations.contains (step.locationId.getD "")) ||
      locations.contains step.sourceId || locations.contains step.destinationId)

/-- The selection pins or picks one of the records, or keeps one of the locations fixed. -/
def selectionAffected (state : WorkspaceState) (items locations changed : List String)
    (selection : PlanSelection) : Bool :=
  selection.pinnedItemIds.any (items.contains ·) ||
    (selection.locationIds.getD [] ++ selection.pinnedLocationIds).any (locations.contains ·) ||
    changed.any fun id =>
      (resolvePlanSelection state.household (some selection)).fixedLocationIds.contains id

/-- The plan is active and a change to the items and locations makes it stale. -/
def planAffected (state : WorkspaceState) (itemIds locationIds : List String)
    (plan : MovePlan) : Bool :=
  let affected := locationIds.flatMap (withAncestors state)
  plan.status = .active &&
    ((match plan.selection with
      | some selection => selectionAffected state itemIds affected locationIds selection
      | none => false) ||
      plan.steps.any (stepAffected itemIds affected))

/-- The patch that discards a plan. -/
def discardPatch (plan : MovePlan) : FieldPatch :=
  patch .plan plan.id "status" (encode plan.status) (encode PlanStatus.discarded)

/-- `planInvalidationPatches(state, itemIds, locationIds)`: an active plan goes when a record of its
    open steps does. -/
def planInvalidationPatches (state : WorkspaceState) (itemIds locationIds : List String) :
    List FieldPatch :=
  (state.plans.filter (planAffected state itemIds locationIds)).map discardPatch

section Checks

variable [Host]

/-! ## 4. Checks of records -/

/-- `validDimensions(value)` of a typed value. -/
def Dimensions.valid (d : Dimensions) : Bool :=
  [d.depth, d.height, d.width].all fun x => x.isFinite && x.pos

/-- `dimensionsValid(dimensions)`. -/
def dimensionsValid : Option Dimensions → Bool
  | none => true
  | some d => d.valid

/-- `code.trim().toLocaleUpperCase()`. -/
def codeKey (code : String) : String := Host.toLocaleUpperCase (trim code)

/-- `validateLocation(state, location, ignoreId)`. -/
def validateLocation (state : WorkspaceState) (location : Location) (ignoreId : Option String) :
    Result Unit := do
  refuse (blank location.id) "INVALID_LOCATION" "Location ID is required"
  refuse (!isSet ignoreId && state.locations.any fun c => c.id = location.id)
    "LOCATION_EXISTS" "A location with this ID already exists"
  refuse (blank location.name) "NAME_REQUIRED" "Location name is required"
  refuse (blank location.code) "CODE_REQUIRED" "Location code is required"
  refuse (!location.order.isFinite) "INVALID_ORDER" "Location order must be a number"
  refuse (!dimensionsValid location.dimensions) "INVALID_LOCATION" "Location fields are malformed"
  refuse (match location.parentId with
    | some p => blank p
    | none => false) "INVALID_PARENT" "A location parent must be a location ID or null"
  refuse (location.parentId = some location.id) "LOCATION_CYCLE"
    "A location cannot contain itself"
  refuse (isSet ignoreId && isSet location.parentId &&
      (descendantsOf state (ignoreId.getD "")).any fun c => some c.id = location.parentId)
    "LOCATION_CYCLE" "A location cannot move inside its descendant"
  refuse (state.locations.any fun c =>
      some c.id ≠ ignoreId && c.active && codeKey c.code = codeKey location.code)
    "CODE_IN_USE" s!"Location code {location.code} is already in use"
  match location.parentId with
  | none => return ()
  | some p =>
    if p = "" then return ()
    else do
      let parent ← requireLocation state p
      refuse (location.active && !parent.active) "PARENT_ARCHIVED"
        s!"Restore {parent.name} before placing an active space inside it"

/-- `validateItem(state, item)`. -/
def validateItem (state : WorkspaceState) (item : ItemRecord) : Result Unit := do
  refuse (blank item.id) "INVALID_ITEM" "Item ID is required"
  refuse (blank item.locationId) "INVALID_LOCATION" "Item location is required"
  refuse (blank item.name) "NAME_REQUIRED" "Item name is required"
  refuse (!item.quantity.isFinite || !item.quantity.pos) "INVALID_QUANTITY"
    "Quantity must be greater than zero"
  refuse (blank item.unit) "UNIT_REQUIRED" "Unit is required"
  refuse (!item.order.isFinite) "INVALID_ORDER" "Item order must be a number"
  refuse (!dimensionsValid item.dimensions || !JsNumber.safeInt item.version ||
    decide (item.version < 1)) "INVALID_ITEM" "Item fields are malformed"
  checkIf item.active (do
    let _ ← requireActiveLocation state item.locationId)

/-! ## 5. Moving an item -/

/-- `value.trim().toLocaleLowerCase()`. -/
def lowered (value : String) : String := Host.toLocaleLowerCase (trim value)

/-- `equivalent(left, right)`: two records of one kind of thing, which a move may merge. -/
def equivalent (left right : ItemRecord) : Bool :=
  lowered left.name == lowered right.name && lowered left.category == lowered right.category &&
    lowered left.unit == lowered right.unit && sortStrings left.tags == sortStrings right.tags &&
    equal (encode left.constraints) (encode right.constraints) &&
    equal (encode left.dimensions) (encode right.dimensions) &&
    left.frequency = right.frequency && left.description == right.description

/-- The quantity, timestamp and version of an item whose quantity changes. -/
def quantityPatches (item : ItemRecord) (quantity : JsNumber) (timestamp : String)
    (version : Int) : List FieldPatch :=
  [patch .item item.id "quantity" (encode item.quantity) (encode quantity),
    patch .item item.id "updatedAt" (encode item.updatedAt) (encode timestamp),
    patch .item item.id "version" (encode item.version) (encode version)]

/-- One more than the largest order of the active items at the destination. -/
def destinationOrder (state : WorkspaceState) (destinationId : String) : JsNumber :=
  ((state.items.filter fun c => c.locationId = destinationId && c.active).foldl
    (fun maximum c => JsNumber.max maximum c.order) (JsNumber.ofInt (-1))).add 1

/-- The item at the destination that the moved one is merged into. -/
def mergeTarget (state : WorkspaceState) (item : ItemRecord) (destinationId : String) :
    Option ItemRecord :=
  state.items.find? fun c =>
    c.id ≠ item.id && c.active && c.locationId = destinationId && equivalent c item

/-- `moveItemPatches(state, item, destinationId, quantity, envelopeId, timestamp)`: the record goes
    as a whole, is split, or is merged into its equal at the destination. -/
def moveItemPatches (state : WorkspaceState) (item : ItemRecord) (destinationId : String)
    (quantity : JsNumber) (envelopeId timestamp : String) : Result (List FieldPatch) := do
  let _ ← requireActiveLocation state destinationId
  refuse (item.locationId = destinationId) "ALREADY_THERE"
    s!"{item.name} is already in that location"
  refuse (!quantity.isFinite || !quantity.pos || item.quantity.lt quantity) "INVALID_QUANTITY"
    s!"Move quantity must be between 0 and {Host.numberText item.quantity}"
  let remaining := item.quantity.sub quantity
  match mergeTarget state item destinationId with
  | some matching =>
    let merged := matching.quantity.add quantity
    refuse (!merged.isFinite) "QUANTITY_OVERFLOW"
      s!"Moving {item.name} would exceed the supported quantity range"
    let version ← nextItemVersion matching
    let first := quantityPatches matching merged timestamp version
    if remaining = 0 then
      return first ++ [patch .item item.id "" (encode item) .undefined]
    else do
      let version ← nextItemVersion item
      return first ++ quantityPatches item remaining timestamp version
  | none =>
    if remaining = 0 then do
      let version ← nextItemVersion item
      return [patch .item item.id "locationId" (encode item.locationId) (encode destinationId),
        patch .item item.id "order" (encode item.order)
          (encode (destinationOrder state destinationId)),
        patch .item item.id "updatedAt" (encode item.updatedAt) (encode timestamp),
        patch .item item.id "version" (encode item.version) (encode version)]
    else do
      let splitId := s!"item_split_{envelopeId}"
      refuse (state.items.any fun c => c.id = splitId) "ITEM_EXISTS"
        "The partial move would reuse an existing item record ID"
      let split : ItemRecord := { item with
        createdAt := timestamp
        id := splitId
        locationId := destinationId
        order := destinationOrder state destinationId
        quantity := quantity
        updatedAt := timestamp
        version := 1 }
      let version ← nextItemVersion item
      return quantityPatches item remaining timestamp version ++
        [patch .item splitId "" .undefined (encode split)]

end Checks

end Stowplan
