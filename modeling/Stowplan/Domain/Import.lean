/-
  File:      Stowplan/Domain/Import.lean
  Subject:   THE SNAPSHOT CHECK AND THE IMPORT OF BACKUPS (import.ts).

  A snapshot is checked as a raw value: nothing about it is assumed, not even that it is an
  object. The check returns the list of issues in the order the source reports them; it throws
  where the source does, when a value has no text (`String(value)`) or a patch names its target
  by a property every object inherits.

  * `validateSnapshot`: the check; `isLegacyCompatibleIssue`, `validateImportSnapshot`;
  * `normalizeWorkspaceState`: legacy field names, receipts without repetitions, missing orders;
  * `parseSnapshot`: what importing the value of a parsed text gives.
-/
import Stowplan.Domain.Codec
import Stowplan.Domain.PlanSelection

namespace Stowplan

open JsValue Keyed Forest

/-- `LEGACY_SCHEMA_VERSION`. -/
def legacySchemaVersion : Int := 1

/-! ## 1. Small checks -/

/-- `if (condition) issues.push(issue(code, message, path))`. -/
def issueIf (condition : Bool) (code message path : String) : List ValidationIssue :=
  if condition then [{ code, message, path, severity := .error }] else []

/-- `typeof value === "string" && value.trim()`. -/
def isNonblank : JsValue → Bool
  | .str s => !blank s
  | _ => false

/-- `a === b`: objects and arrays of a parsed value are themselves only. -/
def strictEqual : JsValue → JsValue → Bool
  | .undefined, .undefined | .null, .null => true
  | .bool a, .bool b => a == b
  | .num a, .num b => a.strictEq b
  | .str a, .str b => a == b
  | _, _ => false

/-- The words of `captureStatus`. -/
def captureStatuses : List String := ["counted", "in_progress", "known_empty", "uncounted"]

/-- The words of `kind`. -/
def locationKinds : List String :=
  ["area", "bin", "box", "cabinet", "container", "drawer", "room", "shelf", "zone"]

/-- The words of `frequency`. -/
def frequencies : List String := ["daily", "weekly", "monthly", "rarely"]

/-- The words of the status of a plan. -/
def planStatuses : List String := ["active", "completed", "discarded"]

/-- The fields of the weights of a plan. -/
def planWeightFields : List String :=
  ["accessibility", "capacity", "grouping", "moveCost", "suitability"]

/-- `patchPaths`: the paths a patch may have, for each target. -/
def patchPaths : PatchTarget → List String
  | .item => ["", "archivedAt", "category", "constraints", "constraints.avoidHumidity",
      "constraints.avoidWarmth", "constraints.foodOnly", "constraints.keepTogether",
      "constraints.requiredTags", "description", "dimensions", "frequency", "locationId", "name",
      "order", "quantity", "tags", "unit", "updatedAt", "version"]
  | .location => ["", "archivedAt", "captureStatus", "code", "conditions", "description",
      "dimensions", "kind", "name", "order", "parentId", "tags", "updatedAt"]
  | .plan => ["", "status", "steps"]
  | .workspace => ["name"]

/-- What `patchPaths[target]` is besides its own four sets: inherited, and no set. -/
def inheritedTargets : List String :=
  ["__defineGetter__", "__defineSetter__", "__lookupGetter__", "__lookupSetter__", "__proto__",
    "constructor", "hasOwnProperty", "isPrototypeOf", "propertyIsEnumerable", "toLocaleString",
    "toString", "valueOf"]

/-- `a && b` where `b` may throw. -/
def andThen (a : Bool) (b : Result Bool) : Result Bool := if a then b else .ok false

section Check

variable [Host]

/-- `String(value)`. -/
def textOf (value : JsValue) : Result String :=
  match stringOf Host.numberText value with
  | some s => .ok s
  | none => .error (.crash "TypeError: Cannot convert object to primitive value")

/-- `words.includes(String(value))`. -/
def oneOf (words : List String) (value : JsValue) : Result Bool := do
  return words.contains (← textOf value)

/-- `validDimensions(value)`. -/
def validDimensions (value : JsValue) : Bool :=
  value = .null ||
    (value.isRecord && ["width", "height", "depth"].all (fun f => (value.get f).isPositiveNum) &&
      (value.get "unit" = .str "cm" || value.get "unit" = .str "in"))

/-- `validConditions(value)`. -/
def validConditions (value : JsValue) : Result Bool :=
  andThen (value.isRecord && ["dark", "dry", "foodSafe"].all fun f => (value.get f).isBool) do
    andThen (← oneOf ["dry", "normal", "humid"] (value.get "humidity"))
      (oneOf ["cold", "cool", "normal", "warm"] (value.get "temperature"))

/-- `validConstraints(value)`. -/
def validConstraints (value : JsValue) : Bool :=
  value.isRecord && ["avoidHumidity", "avoidWarmth", "foodOnly"].all (fun f => (value.get f).isBool)
    && (value.get "keepTogether").isNullableString && (value.get "requiredTags").isStringArray

/-- One step as `validPlanSteps` checks it: exactly one of the two records is named. -/
def validPlanStep (step : JsValue) : Bool :=
  step.isRecord && isNonblank (step.get "id") && isNonblank (step.get "sourceId") &&
    isNonblank (step.get "destinationId") && (step.get "completedAt").isNullableString &&
    (step.get "explanation").isStringArray && (step.get "score").isFiniteNum &&
    ((step.get "type" = .str "item" && isNonblank (step.get "itemId") &&
        step.get "locationId" = .null && (step.get "quantity").isPositiveNum) ||
      (step.get "type" = .str "location" && isNonblank (step.get "locationId") &&
        step.get "itemId" = .null && step.get "quantity" = .null))

/-- `validPlanSteps(value)`. -/
def validPlanSteps (value : JsValue) : Bool := value.isArray && value.elems.all validPlanStep

/-- `ids(list)` of `validPlanSelection`. -/
def isIdList (value : JsValue) : Bool :=
  value.isStringArray && idList (value.elems.map text)

/-- `validPlanSelection(value)` of a raw value. -/
def validSelectionValue (value : JsValue) : Bool :=
  value = .undefined ||
    (value.isRecord &&
      value.keys.all (fun k => ["locationIds", "pinnedItemIds", "pinnedLocationIds"].contains k) &&
      (value.get "locationIds" = .null || isIdList (value.get "locationIds")) &&
      isIdList (value.get "pinnedItemIds") && isIdList (value.get "pinnedLocationIds"))

/-- `validFullPatchRecord(target, value, id)`: a patch of a whole record carries that record. -/
def validFullPatchRecord (target : PatchTarget) (value : JsValue) (id : String) : Result Bool :=
  andThen (value.isRecord && value.get "id" = .str id)
    (match target with
    | .location =>
      andThen
        (isNonblank (value.get "name") && isNonblank (value.get "code") &&
          (value.get "description").isString && (value.get "createdAt").isString &&
          (value.get "updatedAt").isString && (value.get "archivedAt").isNullableString &&
          (value.get "parentId").isNullableString && (value.get "order").isFiniteNum &&
          (value.get "tags").isStringArray) do
        andThen (← oneOf captureStatuses (value.get "captureStatus")) do
          andThen (← oneOf locationKinds (value.get "kind")) do
            andThen (validDimensions (value.get "dimensions"))
              (validConditions (value.get "conditions"))
    | .item =>
      andThen
        (isNonblank (value.get "name") && isNonblank (value.get "unit") &&
          (value.get "locationId").isString && (value.get "category").isString &&
          (value.get "description").isString && (value.get "createdAt").isString &&
          (value.get "updatedAt").isString && (value.get "archivedAt").isNullableString &&
          (value.get "quantity").isPositiveNum &&
          (value.get "order" = .undefined || (value.get "order").isFiniteNum) &&
          (value.get "version").isSafeIntFrom 1 && (value.get "tags").isStringArray) do
        andThen (← oneOf frequencies (value.get "frequency"))
          (.ok (validDimensions (value.get "dimensions") &&
            validConstraints (value.get "constraints")))
    | .plan =>
      andThen (isNonblank (value.get "name") && (value.get "createdAt").isString) do
        andThen (← oneOf planStatuses (value.get "status"))
          (.ok ((value.get "weights").isRecord &&
            planWeightFields.all (fun f => ((value.get "weights").get f).isFiniteNum) &&
            validPlanSteps (value.get "steps") && validSelectionValue (value.get "selection")))
    | .workspace => .ok false)

/-- `validPatchValue(target, path, value, id)`: the checks of each path. -/
def validPatchValue (target : PatchTarget) (path : String) (value : JsValue) (id : String) :
    Result Bool :=
  if value = .undefined then .ok true
  else if path = "" then validFullPatchRecord target value id
  else if ["name", "code", "description", "category", "unit", "updatedAt"].contains path then
    .ok (value.isString && (!(["name", "code", "unit"].contains path) || isNonblank value))
  else if path = "locationId" then .ok value.isString
  else if path = "parentId" || path = "archivedAt" then .ok value.isNullableString
  else if path = "order" then .ok value.isFiniteNum
  else if path = "quantity" then .ok value.isPositiveNum
  else if path = "version" then .ok (value.isSafeIntFrom 1)
  else if path = "tags" then .ok value.isStringArray
  else if path = "dimensions" then .ok (validDimensions value)
  else if path = "conditions" then validConditions value
  else if path = "constraints" then .ok (validConstraints value)
  else if ["constraints.avoidHumidity", "constraints.avoidWarmth",
      "constraints.foodOnly"].contains path then .ok value.isBool
  else if path = "constraints.keepTogether" then .ok value.isNullableString
  else if path = "constraints.requiredTags" then .ok value.isStringArray
  else if path = "frequency" then oneOf frequencies value
  else if path = "kind" then oneOf locationKinds value
  else if path = "captureStatus" then oneOf captureStatuses value
  else if path = "status" then oneOf planStatuses value
  else if path = "steps" then .ok (validPlanSteps value)
  else .ok false

/-- `validateDimensions(value, path, issues)`. -/
def validateDimensions (value : JsValue) (path : String) : List ValidationIssue :=
  if value = .null then []
  else if !value.isRecord then
    issueIf true "DIMENSIONS" "Dimensions must be null or an object" path
  else
    (["width", "height", "depth"].flatMap fun f =>
      issueIf (!(value.get f).isPositiveNum) "DIMENSIONS" (f ++ " must be greater than zero")
        (path ++ "." ++ f)) ++
    issueIf (value.get "unit" ≠ .str "cm" && value.get "unit" ≠ .str "in") "DIMENSIONS"
      "Unit must be cm or in" (path ++ ".unit")

/-- `requireString(record, field, path, issues)`. -/
def requireString (record : JsValue) (field path : String) : List ValidationIssue :=
  issueIf (!(record.get field).isString) "STRING_REQUIRED" (field ++ " must be a string")
    (path ++ "." ++ field)

/-! ## 2. The workspace and the receipts -/

/-- `$.workspace`: the record, its texts and its revision. -/
def workspaceIssues (value : JsValue) : List ValidationIssue :=
  let workspace := value.get "workspace"
  if !workspace.isRecord || !isNonblank (workspace.get "id") then
    issueIf true "WORKSPACE_REQUIRED" "Backup needs a workspace" "$.workspace"
  else
    requireString workspace "name" "$.workspace" ++
    issueIf ((workspace.get "name").isString && !isNonblank (workspace.get "name"))
      "WORKSPACE_NAME" "Workspace name cannot be blank" "$.workspace.name" ++
    requireString workspace "createdAt" "$.workspace" ++
    requireString workspace "updatedAt" "$.workspace" ++
    issueIf (!(workspace.get "revision").isSafeIntFrom 0) "WORKSPACE_REVISION"
      "Revision must be a non-negative safe integer" "$.workspace.revision"

/-- The receipts in order, with the ones met so far. -/
def receiptLoop : Nat → List String → List String → List ValidationIssue
  | _, _, [] => []
  | index, seen, commandId :: rest =>
    (if blank commandId then
      issueIf true "COMMAND_RECEIPTS" "Command receipt IDs cannot be blank"
        s!"$.commandReceipts[{index}]"
    else
      issueIf (seen.contains commandId) "DUPLICATE_ID" "Duplicate command receipt ID"
        s!"$.commandReceipts[{index}]") ++
    receiptLoop (index + 1) (commandId :: seen) rest

/-- `$.commandReceipts`: texts, none of them blank or repeated. -/
def receiptIssues (value : JsValue) : List ValidationIssue :=
  let receipts := value.get "commandReceipts"
  if receipts = .undefined then []
  else if !receipts.isStringArray then
    issueIf true "COMMAND_RECEIPTS" "Command receipts must be strings" "$.commandReceipts"
  else receiptLoop 0 [] (receipts.elems.map text)

/-! ## 3. Locations -/

/-- The conditions of one location. -/
def conditionIssues (conditions : JsValue) (path : String) : Result (List ValidationIssue) :=
  if !conditions.isRecord then
    .ok (issueIf true "LOCATION_CONDITIONS" "Conditions must be an object" (path ++ ".conditions"))
  else do
    let humidity ← oneOf ["dry", "normal", "humid"] (conditions.get "humidity")
    let temperature ← oneOf ["cold", "cool", "normal", "warm"] (conditions.get "temperature")
    return (["dark", "dry", "foodSafe"].flatMap fun f =>
        issueIf (!(conditions.get f).isBool) "LOCATION_CONDITIONS" (f ++ " must be boolean")
          (path ++ ".conditions." ++ f)) ++
      issueIf (!humidity) "LOCATION_CONDITIONS" "Invalid humidity"
        (path ++ ".conditions.humidity") ++
      issueIf (!temperature) "LOCATION_CONDITIONS" "Invalid temperature"
        (path ++ ".conditions.temperature")

/-- `code.trim().toLocaleUpperCase()`, nothing where the code is no string. -/
def normalizedCode (candidate : JsValue) : String :=
  match candidate.get "code" with
  | .str code => Host.toLocaleUpperCase (trim code)
  | _ => ""

/-- The issues of one location with an identifier. -/
def locationIssues (index : Nat) (ids codes : List String) (candidate : JsValue) :
    Result (List ValidationIssue) := do
  let path := s!"$.locations[{index}]"
  let capture ← oneOf captureStatuses (candidate.get "captureStatus")
  let kind ← oneOf locationKinds (candidate.get "kind")
  let conditions ← conditionIssues (candidate.get "conditions") path
  return issueIf (ids.contains (candidate.get "id").text) "DUPLICATE_ID" "Duplicate location id"
      (path ++ ".id") ++
    issueIf (!isNonblank (candidate.get "name")) "LOCATION_NAME" "Location needs a name"
      (path ++ ".name") ++
    issueIf (!isNonblank (candidate.get "code")) "LOCATION_CODE" "Location needs a code"
      (path ++ ".code") ++
    issueIf (!(candidate.get "order").isFiniteNum) "LOCATION_ORDER"
      "Location order must be a number" (path ++ ".order") ++
    issueIf (!(candidate.get "archivedAt").isNullableString) "LOCATION_ARCHIVED"
      "Archived timestamp must be a string or null" (path ++ ".archivedAt") ++
    issueIf (candidate.get "parentId" ≠ .null && !isNonblank (candidate.get "parentId"))
      "LOCATION_PARENT" "Parent must be a location id or null" (path ++ ".parentId") ++
    issueIf (!(candidate.get "tags").isStringArray) "LOCATION_TAGS" "Tags must be strings"
      (path ++ ".tags") ++
    issueIf (!capture) "CAPTURE_STATUS" "Invalid capture status" (path ++ ".captureStatus") ++
    issueIf (!kind) "LOCATION_KIND" "Invalid location kind" (path ++ ".kind") ++
    requireString candidate "createdAt" path ++
    requireString candidate "updatedAt" path ++
    requireString candidate "description" path ++
    validateDimensions (candidate.get "dimensions") (path ++ ".dimensions") ++
    conditions ++
    issueIf (!(candidate.get "archivedAt").truthy && normalizedCode candidate != "" &&
        codes.contains (normalizedCode candidate)) "DUPLICATE_CODE"
      ("Active code " ++ (candidate.get "code").text ++ " is duplicated") (path ++ ".code")

/-- The locations one after another, with the ids and the codes of those before. -/
def locationLoop : Nat → List String → List String → List JsValue →
    Result (List ValidationIssue)
  | _, _, _, [] => .ok []
  | index, ids, codes, candidate :: rest =>
    if !candidate.isRecord || !isNonblank (candidate.get "id") then do
      let more ← locationLoop (index + 1) ids codes rest
      return issueIf true "LOCATION_ID" "Location needs an id" s!"$.locations[{index}].id" ++ more
    else do
      let here ← locationIssues index ids codes candidate
      let codes' := if !(candidate.get "archivedAt").truthy && normalizedCode candidate != "" then
        normalizedCode candidate :: codes else codes
      let more ← locationLoop (index + 1) ((candidate.get "id").text :: ids) codes' rest
      return here ++ more

/-- The identifiers the loop over the locations records. -/
def locationIdsOf (locations : List JsValue) : List String :=
  (locations.filter fun l => l.isRecord && isNonblank (l.get "id")).map fun l => (l.get "id").text

/-- `locationById`, `itemById`: the records with a string identifier. -/
def withIds (records : List JsValue) : List JsValue :=
  records.filter fun r => r.isRecord && (r.get "id").isString

/-- The id of a raw record. -/
def valueId (record : JsValue) : String := (record.get "id").text

/-- `typeof candidate.parentId === "string" ? candidate.parentId : null`, with the empty string
    as nothing: a cursor that is empty ends the walk. -/
def parentOf (candidate : JsValue) : Option String :=
  match candidate.get "parentId" with
  | .str p => if p = "" then none else some p
  | _ => none

/-- The parent of the first location with an identifier. -/
def parentOfId (locations : List JsValue) (id : String) : Option String :=
  (locations.find? fun l => l.isRecord && l.get "id" = .str id).bind parentOf

/-- The issues of where one location is. -/
def placementIssues (locations : List JsValue) (index : Nat) (candidate : JsValue) :
    List ValidationIssue :=
  if !candidate.isRecord || !(candidate.get "id").isString then []
  else
    let parentId := parentOf candidate
    let parent := parentId.bind fun p => mapGet valueId p (withIds locations)
    (match parentId with
      | some p => issueIf (!(locationIdsOf locations).contains p) "DANGLING_PARENT"
          s!"Parent {p} does not exist" s!"$.locations[{index}].parentId"
      | none => []) ++
    issueIf (!(candidate.get "archivedAt").truthy &&
        (match parent with
        | some r => (r.get "archivedAt").truthy
        | none => false))
      "PARENT_ARCHIVED" "An active location cannot be inside an archived parent"
      s!"$.locations[{index}].parentId" ++
    issueIf (loops (parentOfId locations) (locations.length + 1) [valueId candidate] parentId)
      "LOCATION_CYCLE" "Location hierarchy contains a cycle" s!"$.locations[{index}]"

/-! ## 4. Items -/

/-- The constraints of one item. -/
def constraintIssues (constraints : JsValue) (path : String) : List ValidationIssue :=
  if !constraints.isRecord then
    issueIf true "ITEM_CONSTRAINTS" "Constraints must be an object" (path ++ ".constraints")
  else
    (["avoidHumidity", "avoidWarmth", "foodOnly"].flatMap fun f =>
      issueIf (!(constraints.get f).isBool) "ITEM_CONSTRAINTS" (f ++ " must be boolean")
        (path ++ ".constraints." ++ f)) ++
    issueIf (!(constraints.get "keepTogether").isNullableString) "ITEM_CONSTRAINTS"
      "keepTogether must be a string or null" (path ++ ".constraints.keepTogether") ++
    issueIf (!(constraints.get "requiredTags").isStringArray) "ITEM_CONSTRAINTS"
      "Required tags must be strings" (path ++ ".constraints.requiredTags")

/-- The issues of one item with an identifier. -/
def itemIssues (locations : List JsValue) (index : Nat) (ids : List String)
    (candidate : JsValue) : Result (List ValidationIssue) := do
  let path := s!"$.items[{index}]"
  let located := (candidate.get "locationId").isString &&
    (locationIdsOf locations).contains (candidate.get "locationId").text
  let stored ← if located then
      .ok (issueIf (!(candidate.get "archivedAt").truthy &&
          (match mapGet valueId (candidate.get "locationId").text (withIds locations) with
          | some r => (r.get "archivedAt").truthy
          | none => false))
        "ARCHIVED_LOCATION" "An active item cannot be stored in an archived location"
        (path ++ ".locationId"))
    else do
      let name ← textOf (candidate.get "locationId")
      .ok (issueIf true "DANGLING_LOCATION" s!"Location {name} does not exist"
        (path ++ ".locationId"))
  let frequency ← oneOf frequencies (candidate.get "frequency")
  return issueIf (ids.contains (valueId candidate)) "DUPLICATE_ID" "Duplicate item id"
      (path ++ ".id") ++
    stored ++
    issueIf (!(candidate.get "archivedAt").isNullableString) "ITEM_ARCHIVED"
      "Archived timestamp must be a string or null" (path ++ ".archivedAt") ++
    issueIf (!(candidate.get "quantity").isPositiveNum) "ITEM_QUANTITY"
      "Quantity must be greater than zero" (path ++ ".quantity") ++
    issueIf (candidate.get "order" ≠ .undefined && !(candidate.get "order").isFiniteNum)
      "ITEM_ORDER" "Item order must be a number" (path ++ ".order") ++
    issueIf (!(candidate.get "version").isSafeIntFrom 1) "ITEM_VERSION"
      "Item version must be a positive safe integer" (path ++ ".version") ++
    issueIf (!isNonblank (candidate.get "name")) "ITEM_NAME" "Item needs a name"
      (path ++ ".name") ++
    (["unit", "category", "description", "createdAt", "updatedAt"].flatMap fun f =>
      requireString candidate f path) ++
    issueIf ((candidate.get "unit").isString && !isNonblank (candidate.get "unit")) "ITEM_UNIT"
      "Item unit cannot be blank" (path ++ ".unit") ++
    issueIf (!(candidate.get "tags").isStringArray) "ITEM_TAGS" "Tags must be strings"
      (path ++ ".tags") ++
    issueIf (!frequency) "ITEM_FREQUENCY" "Invalid frequency" (path ++ ".frequency") ++
    validateDimensions (candidate.get "dimensions") (path ++ ".dimensions") ++
    constraintIssues (candidate.get "constraints") path

/-- The items one after another, with the ids of those before. -/
def itemLoop (locations : List JsValue) : Nat → List String → List JsValue →
    Result (List ValidationIssue)
  | _, _, [] => .ok []
  | index, ids, candidate :: rest =>
    if !candidate.isRecord || !isNonblank (candidate.get "id") then do
      let more ← itemLoop locations (index + 1) ids rest
      return issueIf true "ITEM_ID" "Item needs an id" s!"$.items[{index}].id" ++ more
    else do
      let here ← itemIssues locations index ids candidate
      let more ← itemLoop locations (index + 1) (valueId candidate :: ids) rest
      return here ++ more

/-- A location marked known empty with something live in it. -/
def emptyIssues (locations items : List JsValue) (index : Nat) (candidate : JsValue) :
    List ValidationIssue :=
  if !candidate.isRecord || candidate.get "captureStatus" ≠ .str "known_empty" then []
  else
    let hasLiveItem := items.any fun item =>
      item.isRecord && !(item.get "archivedAt").truthy &&
        strictEqual (item.get "locationId") (candidate.get "id")
    let hasLiveChild := locations.any fun location =>
      location.isRecord && !(location.get "archivedAt").truthy &&
        strictEqual (location.get "parentId") (candidate.get "id")
    issueIf (hasLiveItem || hasLiveChild) "NOT_EMPTY"
      "A known-empty location cannot contain live records or nested spaces"
      s!"$.locations[{index}].captureStatus"

/-! ## 5. Plans -/

/-- `cursor = locationById.get(cursor.parentId)` where that is a string. -/
def valueAbove (locations : List JsValue) (cursor : JsValue) : Option JsValue :=
  match cursor.get "parentId" with
  | .str p => mapGet valueId p (withIds locations)
  | _ => none

/-- `locationById.get(id)`, `itemById.get(id)` of a value that may be no string. -/
def recordOf (records : List JsValue) (id : JsValue) : Option JsValue :=
  match id with
  | .str s => mapGet valueId s (withIds records)
  | _ => none

/-- The record is missing or archived. -/
def unavailable : Option JsValue → Bool
  | none => true
  | some r => (r.get "archivedAt").truthy

/-- What a step for an item is asked. -/
def itemStepIssues (items : List JsValue) (executable : Bool) (path : String) (step : JsValue) :
    List ValidationIssue :=
  let item := recordOf items (step.get "itemId")
  (if !isNonblank (step.get "itemId") then
    issueIf true "PLAN_STEP" "Item step subject ID is required" (path ++ ".itemId")
  else
    issueIf (executable && unavailable item) "PLAN_ITEM" "Executable item step needs a live item"
      (path ++ ".itemId")) ++
  issueIf (step.get "locationId" ≠ .null) "PLAN_STEP" "Item steps cannot name a container subject"
    (path ++ ".locationId") ++
  issueIf (!(step.get "quantity").isPositiveNum) "PLAN_STEP"
    "Item move quantity must be greater than zero" (path ++ ".quantity") ++
  issueIf (executable && (match item with
      | some i => !strictEqual (i.get "locationId") (step.get "sourceId") ||
          !strictEqual (i.get "quantity") (step.get "quantity")
      | none => false)) "PLAN_STEP_STALE"
    "Executable item step does not match the item's current location and quantity" path

/-- What a step for a container is asked. -/
def containerStepIssues (locations : List JsValue) (executable : Bool) (path : String)
    (step : JsValue) : List ValidationIssue :=
  let location := recordOf locations (step.get "locationId")
  let destination := recordOf locations (step.get "destinationId")
  (if !isNonblank (step.get "locationId") then
    issueIf true "PLAN_STEP" "Container step subject ID is required" (path ++ ".locationId")
  else
    issueIf (executable && unavailable location) "PLAN_LOCATION"
      "Executable container step needs a live location" (path ++ ".locationId")) ++
  issueIf (step.get "itemId" ≠ .null || step.get "quantity" ≠ .null) "PLAN_STEP"
    "Container steps cannot name an item or quantity" path ++
  issueIf (executable && (match location with
      | some l => !strictEqual (l.get "parentId") (step.get "sourceId")
      | none => false)) "PLAN_STEP_STALE"
    "Executable container step does not match its current parent" path ++
  issueIf (executable && (match location, destination with
      | some l, some d =>
          (climb valueId (valueAbove locations) (withIds locations).length [] (some d)).any
            fun cursor => valueId cursor == valueId l
      | _, _ => false)) "LOCATION_CYCLE"
    "Executable container step would create a hierarchy cycle" (path ++ ".destinationId")

/-- The issues of one step; `active` says whether its plan is. -/
def stepIssues (locations items : List JsValue) (active : Bool) (planIndex stepIndex : Nat)
    (ids : List String) (step : JsValue) : List ValidationIssue :=
  let path := s!"$.plans[{planIndex}].steps[{stepIndex}]"
  let executable := active && !(step.get "completedAt").truthy
  let source := recordOf locations (step.get "sourceId")
  let destination := recordOf locations (step.get "destinationId")
  requireString step "id" path ++
  issueIf ((step.get "id").isString && !isNonblank (step.get "id")) "PLAN_STEP"
    "Plan step ID cannot be blank" (path ++ ".id") ++
  issueIf (isNonblank (step.get "id") && ids.contains (valueId step)) "DUPLICATE_ID"
    "Duplicate plan step id" (path ++ ".id") ++
  issueIf (!(step.get "completedAt").isNullableString) "PLAN_STEP"
    "completedAt must be a timestamp or null" (path ++ ".completedAt") ++
  (if !isNonblank (step.get "sourceId") then
    issueIf true "PLAN_STEP" "Plan source ID is required" (path ++ ".sourceId")
  else
    issueIf (executable && unavailable source) "PLAN_SOURCE"
      "Plan source is missing or archived" (path ++ ".sourceId")) ++
  (if !isNonblank (step.get "destinationId") then
    issueIf true "PLAN_STEP" "Plan destination ID is required" (path ++ ".destinationId")
  else
    issueIf (executable && unavailable destination) "PLAN_DESTINATION"
      "Plan destination is missing or archived" (path ++ ".destinationId")) ++
  issueIf (executable && (step.get "sourceId").isString &&
      strictEqual (step.get "sourceId") (step.get "destinationId")) "PLAN_DESTINATION"
    "Plan destination must differ from its source" (path ++ ".destinationId") ++
  (if step.get "type" = .str "item" then itemStepIssues items executable path step
  else if step.get "type" = .str "location" then
    containerStepIssues locations executable path step
  else issueIf true "PLAN_STEP" "Invalid plan step type" (path ++ ".type")) ++
  issueIf (!(step.get "explanation").isStringArray) "PLAN_STEP" "Explanations must be strings"
    (path ++ ".explanation") ++
  issueIf (!(step.get "score").isFiniteNum) "PLAN_STEP" "Score must be numeric" (path ++ ".score")

/-- The steps of one plan, with the ids of those before. -/
def stepLoop (locations items : List JsValue) (active : Bool) (planIndex : Nat) :
    Nat → List String → List JsValue → List ValidationIssue
  | _, _, [] => []
  | stepIndex, ids, step :: rest =>
    if !step.isRecord then
      issueIf true "PLAN_STEP" "Plan step must be an object"
        s!"$.plans[{planIndex}].steps[{stepIndex}]" ++
      stepLoop locations items active planIndex (stepIndex + 1) ids rest
    else
      stepIssues locations items active planIndex stepIndex ids step ++
      stepLoop locations items active planIndex (stepIndex + 1)
        (if isNonblank (step.get "id") then valueId step :: ids else ids) rest

/-- `typeof step.completedAt === "string"`. -/
def stepStamped (step : JsValue) : Bool := step.isRecord && (step.get "completedAt").isString

/-- The issues of one plan with an identifier. -/
def planIssues (locations items : List JsValue) (planIndex : Nat) (ids : List String)
    (candidate : JsValue) : Result (List ValidationIssue) := do
  let path := s!"$.plans[{planIndex}]"
  let status ← oneOf planStatuses (candidate.get "status")
  let active : Bool := candidate.get "status" = .str "active"
  let completed : Bool := candidate.get "status" = .str "completed"
  let weights := candidate.get "weights"
  let steps := candidate.get "steps"
  return issueIf (ids.contains (valueId candidate)) "DUPLICATE_ID" "Duplicate plan id"
      (path ++ ".id") ++
    requireString candidate "name" path ++
    issueIf ((candidate.get "name").isString && !isNonblank (candidate.get "name")) "PLAN_NAME"
      "Plan name cannot be blank" (path ++ ".name") ++
    requireString candidate "createdAt" path ++
    issueIf (!status) "PLAN_STATUS" "Invalid plan status" (path ++ ".status") ++
    issueIf (!validSelectionValue (candidate.get "selection")) "PLAN_SELECTION"
      "Plan areas and pins are malformed" (path ++ ".selection") ++
    (if !weights.isRecord then
      issueIf true "PLAN_WEIGHTS" "Plan weights must be an object" (path ++ ".weights")
    else
      issueIf (planWeightFields.any fun f => !(weights.get f).isFiniteNum) "PLAN_WEIGHTS"
        "Every plan weight must be numeric" (path ++ ".weights")) ++
    (if !steps.isArray then
      issueIf true "PLAN_STEPS" "Plan steps must be an array" (path ++ ".steps")
    else
      issueIf (active && steps.elems.isEmpty) "PLAN_STEPS"
        "An active plan needs at least one move" (path ++ ".steps") ++
      stepLoop locations items active planIndex 0 [] steps.elems ++
      issueIf (completed && steps.elems.any fun s => !stepStamped s) "PLAN_STATUS"
        "A completed plan cannot contain unfinished moves" (path ++ ".status") ++
      issueIf (active && !steps.elems.isEmpty && steps.elems.all stepStamped) "PLAN_STATUS"
        "A plan with every move completed must be marked completed" (path ++ ".status"))

/-- The plans one after another, with the ids of those before. -/
def planLoop (locations items : List JsValue) : Nat → List String → List JsValue →
    Result (List ValidationIssue)
  | _, _, [] => .ok []
  | index, ids, candidate :: rest =>
    if !candidate.isRecord || !isNonblank (candidate.get "id") then do
      let more ← planLoop locations items (index + 1) ids rest
      return issueIf true "PLAN_ID" "Plan needs an id" s!"$.plans[{index}].id" ++ more
    else do
      let here ← planIssues locations items index ids candidate
      let more ← planLoop locations items (index + 1) (valueId candidate :: ids) rest
      return here ++ more

/-- The active plans of a backup. -/
def activePlanCount (plans : List JsValue) : Nat :=
  (plans.filter fun p =>
    p.isRecord && isNonblank (p.get "id") && p.get "status" = .str "active").length

/-- What the selection reads of a raw location. -/
def placeOf (location : JsValue) : Place where
  id := valueId location
  parentId := match location.get "parentId" with
    | .str p => some p
    | _ => none
  active := !(location.get "archivedAt").truthy

/-- What the selection reads of a raw item. -/
def thingOf (item : JsValue) : Thing where
  id := valueId item
  locationId := (item.get "locationId").text
  active := !(item.get "archivedAt").truthy

/-- The issue of an active plan's selection. It is asked only of values without other issues,
    whose selections and steps are well formed. -/
def selectionIssue (household : Household) (plan : JsValue) : Option String :=
  match decode (α := PlanSelection) (plan.get "selection"),
      decode (α := List PlanStep) (plan.get "steps") with
  | some selection, some steps =>
    (planSelectionIssue household (some selection)).or
      ((steps.filter fun s => !s.done).findSome? fun s =>
        planSelectionStepIssue household (some selection) s)
  | _, _ => none

/-- The selection of each active plan, over the raw records. -/
def selectionIssues (locations items plans : List JsValue) : List ValidationIssue :=
  let household : Household := { places := locations.map placeOf, things := items.map thingOf }
  plans.zipIdx.flatMap fun (plan, index) =>
    if plan.get "status" ≠ .str "active" || !(plan.get "selection").truthy then []
    else match selectionIssue household plan with
      | some message =>
          issueIf true "PLAN_SELECTION" message s!"$.plans[{index}].selection"
      | none => []

/-! ## 6. History -/

/-- The target a patch names. -/
def targetOf (word : String) : Option PatchTarget := decode (.str word)

/-- A patch side that is there and carries a value the field cannot have. -/
def sideIssues (target : PatchTarget) (patch : JsValue) (path side : String) :
    Result (List ValidationIssue) :=
  if !patch.hasOwn side then .ok []
  else do
    let valid ← validPatchValue target (patch.get "path").text (patch.get side)
      (patch.get "id").text
    return issueIf (!valid) "PATCH_VALUE" s!"Backup history has an invalid {side} value"
      (path ++ "." ++ side)

/-- One patch of an activity: its target, its path and both sides. -/
def patchIssues (value : JsValue) (path : String) (patch : JsValue) :
    Result (List ValidationIssue) :=
  if !patch.isRecord then .ok (issueIf true "PATCH" "Patch must be an object" path)
  else do
    let word ← textOf (patch.get "target")
    let strings := requireString patch "id" path ++ requireString patch "path" path
    match targetOf word with
    | none =>
      if inheritedTargets.contains word then
        .error (.crash "TypeError: patchPaths[target].has is not a function")
      else
        return strings ++ issueIf true "PATCH" "Invalid patch target" (path ++ ".target")
    | some target =>
      let before ← sideIssues target patch path "before"
      let after ← sideIssues target patch path "after"
      return strings ++
        issueIf (blank (patch.get "id").text) "PATCH" "Patch target ID is required"
          (path ++ ".id") ++
        issueIf (!(patchPaths target).contains (patch.get "path").text) "PATCH_PATH"
          "Backup history contains an unsupported or unsafe field path" (path ++ ".path") ++
        issueIf (target = .workspace && (value.get "workspace").isRecord &&
            !strictEqual (.str (patch.get "id").text) ((value.get "workspace").get "id"))
          "PATCH_TARGET" "Workspace patch targets another workspace" (path ++ ".id") ++
        before ++ after

/-- The patches of one activity. -/
def patchLoop (value : JsValue) (path : String) : Nat → List JsValue →
    Result (List ValidationIssue)
  | _, [] => .ok []
  | index, patch :: rest => do
    let here ← patchIssues value s!"{path}.patches[{index}]" patch
    let more ← patchLoop value path (index + 1) rest
    return here ++ more

/-- `requireString` and the blank check of the identifying fields. -/
def identityIssues (code : String) (candidate : JsValue) (strings nonblank : List String)
    (path : String) : List ValidationIssue :=
  (strings.flatMap fun f => requireString candidate f path) ++
  nonblank.flatMap fun f =>
    issueIf ((candidate.get f).isString && !isNonblank (candidate.get f)) code
      (f ++ " cannot be blank") (path ++ "." ++ f)

/-- One activity: its texts, its status and its patches. -/
def activityIssues (value : JsValue) (index : Nat) (ids : List String) (candidate : JsValue) :
    Result (List ValidationIssue) := do
  let path := s!"$.activities[{index}]"
  let patches := candidate.get "patches"
  let history ← if !patches.isArray then
      .ok (issueIf true "ACTIVITY" "Patches must be an array" (path ++ ".patches"))
    else patchLoop value path 0 patches.elems
  return identityIssues "ACTIVITY" candidate ["id", "actorId", "commandId", "label", "timestamp"]
      ["id", "actorId", "commandId"] path ++
    issueIf (isNonblank (candidate.get "id") && ids.contains (valueId candidate)) "DUPLICATE_ID"
      "Duplicate activity id" (path ++ ".id") ++
    issueIf (candidate.get "status" ≠ .str "applied" && candidate.get "status" ≠ .str "undone")
      "ACTIVITY" "Invalid activity status" (path ++ ".status") ++
    issueIf (!(candidate.get "undoneAt").isNullableString) "ACTIVITY"
      "Undone timestamp must be a string or null" (path ++ ".undoneAt") ++
    issueIf (!(candidate.get "subjectIds").isStringArray) "ACTIVITY" "Subject ids must be strings"
      (path ++ ".subjectIds") ++
    history

/-- The activities one after another, with the ids of those before. -/
def activityLoop (value : JsValue) : Nat → List String → List JsValue →
    Result (List ValidationIssue)
  | _, _, [] => .ok []
  | index, ids, candidate :: rest =>
    if !candidate.isRecord then do
      let more ← activityLoop value (index + 1) ids rest
      return issueIf true "ACTIVITY" "Activity must be an object" s!"$.activities[{index}]" ++ more
    else do
      let here ← activityIssues value index ids candidate
      let more ← activityLoop value (index + 1)
        (if isNonblank (candidate.get "id") then valueId candidate :: ids else ids) rest
      return here ++ more

/-- The identifiers the loop over the activities records. -/
def activityIdsOf (activities : List JsValue) : List String :=
  (activities.filter fun a => a.isRecord && isNonblank (a.get "id")).map valueId

/-- One event of the audit: its texts, its type and the activities it names. -/
def auditIssues (activityIds : List String) (index : Nat) (ids : List String)
    (candidate : JsValue) : Result (List ValidationIssue) := do
  let path := s!"$.audit[{index}]"
  let type ← oneOf ["batch_redo", "batch_undo", "reapply", "undo"] (candidate.get "type")
  let targets := candidate.get "targetActivityIds"
  return identityIssues "AUDIT" candidate ["id", "actorId", "label", "timestamp"]
      ["id", "actorId"] path ++
    issueIf (isNonblank (candidate.get "id") && ids.contains (valueId candidate)) "DUPLICATE_ID"
      "Duplicate audit id" (path ++ ".id") ++
    issueIf (!type) "AUDIT" "Invalid audit event type" (path ++ ".type") ++
    (if !targets.isStringArray then
      issueIf true "AUDIT" "Target activity ids must be strings" (path ++ ".targetActivityIds")
    else
      issueIf ((targets.elems.map text).any fun id => !activityIds.contains id) "AUDIT"
        "Audit event references a missing activity" (path ++ ".targetActivityIds"))

/-- The audit one event after another. -/
def auditLoop (activityIds : List String) : Nat → List String → List JsValue →
    Result (List ValidationIssue)
  | _, _, [] => .ok []
  | index, ids, candidate :: rest =>
    if !candidate.isRecord then do
      let more ← auditLoop activityIds (index + 1) ids rest
      return issueIf true "AUDIT" "Audit event must be an object" s!"$.audit[{index}]" ++ more
    else do
      let here ← auditIssues activityIds index ids candidate
      let more ← auditLoop activityIds (index + 1)
        (if isNonblank (candidate.get "id") then valueId candidate :: ids else ids) rest
      return here ++ more

/-! ## 7. The whole check -/

/-- The issues up to the missing arrays, on which the check stops early. -/
def headIssues (value : JsValue) : List ValidationIssue :=
  issueIf (value.get "schemaVersion" ≠ encode schemaVersion) "SCHEMA_VERSION"
    s!"Expected schema version {schemaVersion}" "$.schemaVersion" ++
  workspaceIssues value

/-- The five lists a backup must have. -/
def arrayIssues (value : JsValue) : List ValidationIssue :=
  ["activities", "audit", "items", "locations", "plans"].flatMap fun key =>
    issueIf (!(value.get key).isArray) "ARRAY_REQUIRED" (key ++ " must be an array") ("$." ++ key)

/-- The issues of the records, before the history. -/
def recordIssues (value : JsValue) : Result (List ValidationIssue) := do
  let locations := (value.get "locations").elems
  let items := (value.get "items").elems
  let plans := (value.get "plans").elems
  let ofLocations ← locationLoop 0 [] [] locations
  let ofItems ← itemLoop locations 0 [] items
  let ofPlans ← planLoop locations items 0 [] plans
  return receiptIssues value ++ ofLocations ++
    (locations.zipIdx.flatMap fun (l, index) => placementIssues locations index l) ++
    ofItems ++
    (locations.zipIdx.flatMap fun (l, index) => emptyIssues locations items index l) ++
    ofPlans ++
    issueIf (1 < activePlanCount plans) "MULTIPLE_ACTIVE_PLANS"
      "A workspace can have only one active plan" "$.plans"

/-- `validateSnapshot(value)`: what is wrong with a backup, in the order of the source. -/
def validateSnapshot (value : JsValue) : Result (List ValidationIssue) :=
  if !value.isRecord then .ok (issueIf true "NOT_OBJECT" "Backup must be a JSON object" "$")
  else if !(arrayIssues value).isEmpty then .ok (headIssues value ++ arrayIssues value)
  else do
    let records ← recordIssues value
    let issues := headIssues value ++ records
    let selections := if issues.isEmpty then
      selectionIssues (value.get "locations").elems (value.get "items").elems
        (value.get "plans").elems else []
    let ofActivities ← activityLoop value 0 [] (value.get "activities").elems
    let ofAudit ← auditLoop (activityIdsOf (value.get "activities").elems) 0 []
      (value.get "audit").elems
    return issues ++ selections ++ ofActivities ++ ofAudit

end Check

/-- `legacyInvariantCodes`. -/
def legacyInvariantCodes : List String :=
  ["ARCHIVED_LOCATION", "MULTIPLE_ACTIVE_PLANS", "NOT_EMPTY", "PARENT_ARCHIVED",
    "PLAN_DESTINATION", "PLAN_ITEM", "PLAN_LOCATION", "PLAN_SOURCE", "PLAN_STEP_STALE"]

/-- `isLegacyCompatibleIssue(candidate)`: an issue that version 1 let pass. -/
def isLegacyCompatibleIssue (candidate : ValidationIssue) : Bool :=
  if candidate.code = "PLAN_STATUS" then candidate.message != "Invalid plan status"
  else if candidate.code = "PLAN_DESTINATION" then
    candidate.message == "Plan destination is missing or archived"
  else legacyInvariantCodes.contains candidate.code

/-! ## 8. Normalising -/

/-- `normalizeItemDescription`, `normalizeItemFieldChanges`: the old name of the description. -/
def normalizeItemDescription (record : JsValue) : JsValue :=
  if !record.isRecord || !record.hasOwn "notes" then record
  else
    let renamed := if record.hasOwn "description" then record
      else record.setKey "description" (record.get "notes")
    renamed.delKey "notes"

/-- Every element of an array changed; any other value is left. -/
def mapElems (f : JsValue → JsValue) (value : JsValue) : JsValue :=
  match value with
  | .arr xs => .arr (xs.map f)
  | v => v

/-- One property changed in place, where the object has it. -/
def updateKey (value : JsValue) (key : String) (f : JsValue → JsValue) : JsValue :=
  if value.hasOwn key then value.setKey key (f (value.get key)) else value

/-- The old names inside a retained patch. -/
def normalizePatchDescription (patch : JsValue) : JsValue :=
  if !patch.isRecord || patch.get "target" ≠ .str "item" then patch
  else if patch.get "path" = .str "notes" then patch.setKey "path" (.str "description")
  else if patch.get "path" = .str "" then
    updateKey (updateKey patch "before" normalizeItemDescription) "after"
      normalizeItemDescription
  else patch

/-- The patches of an activity changed. -/
def mapPatches (f : JsValue → JsValue) (activity : JsValue) : JsValue :=
  if activity.isRecord then updateKey activity "patches" (mapElems f) else activity

/-- `[...new Set(values)]`: equal primitives once, objects each for itself. -/
def dedupe : List JsValue → List JsValue → List JsValue
  | _, [] => []
  | seen, v :: rest =>
    if seen.any (strictEqual v) then dedupe seen rest else v :: dedupe (v :: seen) rest

/-- The next free order of each location, and the order given to each item. -/
structure OrderMaps where
  nextOrder : List (String × JsNumber)
  orderByItemId : List (String × JsNumber)

/-- `map.get(key)`. -/
def orderOf (key : String) (l : List (String × JsNumber)) : Option JsNumber :=
  (findKey Prod.fst key l).map Prod.snd

/-- `nextOrder.set(locationId, Math.max(nextOrder.get(locationId) ?? 0, order + 1))`. -/
def OrderMaps.count (maps : OrderMaps) (locationId : String) (order : JsNumber) : OrderMaps :=
  { maps with
    nextOrder := (locationId,
      JsNumber.max ((orderOf locationId maps.nextOrder).getD 0) (order.add 1)) ::
      maps.nextOrder }

/-- `orderByItemId.set(id, order)`. -/
def OrderMaps.assign (maps : OrderMaps) (id : String) (order : JsNumber) : OrderMaps :=
  { maps with orderByItemId := (id, order) :: maps.orderByItemId }

/-- The number a value is. -/
def numberOf : JsValue → JsNumber
  | .num x => x
  | _ => .nan

/-- One item of the loop that gives orders. -/
def orderItem (maps : OrderMaps) (item : JsValue) : OrderMaps × JsValue :=
  if !item.isRecord || !(item.get "locationId").isString then (maps, item)
  else
    let locationId := (item.get "locationId").text
    let item := if (item.get "order").isFiniteNum then item
      else item.setKey "order" (.num ((orderOf locationId maps.nextOrder).getD 0))
    if (item.get "order").isFiniteNum then
      let order := numberOf (item.get "order")
      let maps := if (item.get "id").isString then maps.assign (valueId item) order else maps
      (maps.count locationId order, item)
    else (maps, item)

/-- A list changed one by one with the maps carried along. -/
def orderAll (f : OrderMaps → JsValue → OrderMaps × JsValue) :
    OrderMaps → List JsValue → OrderMaps × List JsValue
  | maps, [] => (maps, [])
  | maps, v :: rest =>
    let (maps, v) := f maps v
    let (maps, rest) := orderAll f maps rest
    (maps, v :: rest)

/-- One side of a retained full-record patch. -/
def orderRecord (maps : OrderMaps) (record : JsValue) : OrderMaps × JsValue :=
  if !record.isRecord || !(record.get "id").isString || !(record.get "locationId").isString ||
      (record.get "order").isFiniteNum then (maps, record)
  else
    let locationId := (record.get "locationId").text
    let assigned := ((orderOf (valueId record) maps.orderByItemId).or
      (orderOf locationId maps.nextOrder)).getD 0
    ((maps.assign (valueId record) assigned).count locationId assigned,
      record.setKey "order" (.num assigned))

/-- One property of an object changed with the maps carried along. -/
def orderKey (f : OrderMaps → JsValue → OrderMaps × JsValue) (key : String) (maps : OrderMaps)
    (value : JsValue) : OrderMaps × JsValue :=
  if value.hasOwn key then
    let (maps, v) := f maps (value.get key)
    (maps, value.setKey key v)
  else (maps, value)

/-- The two sides of a patch of a whole item get the order they lack. -/
def orderPatch (maps : OrderMaps) (patch : JsValue) : OrderMaps × JsValue :=
  if !patch.isRecord || patch.get "target" ≠ .str "item" || patch.get "path" ≠ .str "" then
    (maps, patch)
  else
    let (maps, patch) := orderKey orderRecord "before" maps patch
    orderKey orderRecord "after" maps patch

/-- The elements of an array, one after another over the same maps. -/
def orderElems (f : OrderMaps → JsValue → OrderMaps × JsValue) (maps : OrderMaps)
    (value : JsValue) : OrderMaps × JsValue :=
  match value with
  | .arr xs =>
    let (maps, xs) := orderAll f maps xs
    (maps, .arr xs)
  | v => (maps, v)

/-- The patches of one activity. -/
def orderActivity (maps : OrderMaps) (activity : JsValue) : OrderMaps × JsValue :=
  if !activity.isRecord || !(activity.get "patches").isArray then (maps, activity)
  else orderKey (orderElems orderPatch) "patches" maps activity

/-- `normalizeWorkspaceState(state)` of an object. -/
def normalizeWorkspaceState (state : JsValue) : JsValue :=
  let version := state.get "schemaVersion"
  let described := if version = encode legacySchemaVersion || version = encode schemaVersion then
    updateKey (updateKey state "items" (mapElems normalizeItemDescription)) "activities"
      (mapElems (mapPatches normalizePatchDescription)) else state
  let versioned := if version = encode legacySchemaVersion then
    described.setKey "schemaVersion" (encode schemaVersion) else described
  let received := versioned.setKey "commandReceipts"
    (match versioned.get "commandReceipts" with
    | .arr xs => .arr (dedupe [] xs)
    | _ => .arr [])
  if !(received.get "items").isArray then received
  else
    let (maps, ordered) := orderKey (orderElems orderItem) "items" ⟨[], []⟩ received
    (orderKey (orderElems orderActivity) "activities" maps ordered).2

/-- `validateImportSnapshot(value)`: the issues of version 1 states become warnings. -/
def validateImportSnapshot [Host] (value : JsValue) : Result (List ValidationIssue) := do
  let issues ← validateSnapshot (if value.isRecord then normalizeWorkspaceState value else value)
  return issues.map fun candidate =>
    if candidate.severity = .error && isLegacyCompatibleIssue candidate then
      { candidate with
        message := "Compatible v1 state is preserved: " ++ candidate.message
        severity := .warning }
    else candidate

/-- `parseSnapshot(text)` where `JSON.parse(text)` is `value`. -/
def parseSnapshot [Host] (value : JsValue) : Result JsValue := do
  let issues ← validateImportSnapshot value
  let errors := issues.filter fun candidate => candidate.severity = .error
  if errors.isEmpty then return normalizeWorkspaceState value
  else throw (.crash (String.intercalate "\n" (errors.map fun candidate =>
    s!"{candidate.path}: {candidate.message}")))

end Stowplan
