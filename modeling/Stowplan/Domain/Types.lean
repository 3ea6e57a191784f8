/-
  File:      Stowplan/Domain/Types.lean
  Subject:   THE RECORDS OF A WORKSPACE (types.ts) and what a refused command throws (errors.ts).

  Field by field the interfaces of types.ts. Counters (`version`, `revision`) are integers; a
  nullable field is an `Option`; an optional boolean of a command is `false` when absent;
  `undefined` before- and after-values of a patch are `JsValue.undefined`. The changes of an
  update are the entries of an object, in its order. `schemaVersion` has one value and is
  written by the encoder (Codec.lean).
-/
import Stowplan.Js.Value
import Stowplan.Js.Text

namespace Stowplan

/-- `SCHEMA_VERSION`. -/
def schemaVersion : Int := 2

/-! ## 1. Records -/

/-- `CaptureStatus`: how far the contents of a location are recorded. -/
inductive CaptureStatus where
  | counted | inProgress | knownEmpty | uncounted
  deriving DecidableEq

/-- `Frequency`: how often an item is used. -/
inductive Frequency where
  | daily | weekly | monthly | rarely
  deriving DecidableEq

/-- `LocationKind`. -/
inductive LocationKind where
  | area | bin | box | cabinet | container | drawer | room | shelf | zone
  deriving DecidableEq

/-- The units of `Dimensions`. -/
inductive DimensionUnit where
  | cm | inch
  deriving DecidableEq

/-- The humidity of `LocationConditions`. -/
inductive Humidity where
  | dry | normal | humid
  deriving DecidableEq

/-- The temperature of `LocationConditions`. -/
inductive Temperature where
  | cold | cool | normal | warm
  deriving DecidableEq

/-- `Dimensions`. -/
structure Dimensions where
  depth : JsNumber
  height : JsNumber
  unit : DimensionUnit
  width : JsNumber
  deriving DecidableEq

structure LocationConditions where
  dark : Bool
  dry : Bool
  foodSafe : Bool
  humidity : Humidity
  temperature : Temperature
  deriving DecidableEq

structure ItemConstraints where
  avoidHumidity : Bool
  avoidWarmth : Bool
  foodOnly : Bool
  keepTogether : Option String
  requiredTags : List String
  deriving DecidableEq

/-- `Workspace`: the name and the revision of the whole state. -/
structure Workspace where
  createdAt : String
  id : String
  name : String
  revision : Int
  updatedAt : String
  deriving DecidableEq

/-- `Location`: a space, with the one it is inside of. -/
structure Location where
  archivedAt : Option String
  captureStatus : CaptureStatus
  code : String
  conditions : LocationConditions
  createdAt : String
  description : String
  dimensions : Option Dimensions
  id : String
  kind : LocationKind
  name : String
  order : JsNumber
  parentId : Option String
  tags : List String
  updatedAt : String
  deriving DecidableEq

/-- `ItemRecord`. -/
structure ItemRecord where
  archivedAt : Option String
  category : String
  constraints : ItemConstraints
  createdAt : String
  description : String
  dimensions : Option Dimensions
  frequency : Frequency
  id : String
  locationId : String
  name : String
  order : JsNumber
  quantity : JsNumber
  tags : List String
  unit : String
  updatedAt : String
  version : Int
  deriving DecidableEq

/-- `!location.archivedAt`. -/
def Location.active (l : Location) : Bool := !isSet l.archivedAt

/-- `!item.archivedAt`. -/
def ItemRecord.active (i : ItemRecord) : Bool := !isSet i.archivedAt

/-- `PlanWeights`: what the planner weighs. -/
structure PlanWeights where
  accessibility : JsNumber
  capacity : JsNumber
  grouping : JsNumber
  moveCost : JsNumber
  suitability : JsNumber
  deriving DecidableEq

/-- The two types of `PlanStep`. -/
inductive StepType where
  | item | location
  deriving DecidableEq

/-- `PlanStep`: one move, of an item or of a location. -/
structure PlanStep where
  completedAt : Option String
  destinationId : String
  explanation : List String
  id : String
  itemId : Option String
  locationId : Option String
  quantity : Option JsNumber
  score : JsNumber
  sourceId : String
  type : StepType
  deriving DecidableEq

/-- `Boolean(step.completedAt)`. -/
def PlanStep.done (step : PlanStep) : Bool := isSet step.completedAt

/-- The status of `MovePlan`. -/
inductive PlanStatus where
  | active | completed | discarded
  deriving DecidableEq

/-- `PlanSelection`: the locations a plan is about, and what it leaves in place. -/
structure PlanSelection where
  locationIds : Option (List String)
  pinnedItemIds : List String
  pinnedLocationIds : List String
  deriving DecidableEq

/-- `MovePlan`. -/
structure MovePlan where
  createdAt : String
  id : String
  name : String
  selection : Option PlanSelection
  status : PlanStatus
  steps : List PlanStep
  weights : PlanWeights
  deriving DecidableEq

/-- The records a patch is about. -/
inductive PatchTarget where
  | item | location | plan | workspace
  deriving DecidableEq

/-- `FieldPatch`: one field of one record, before and after. -/
structure FieldPatch where
  after : JsValue
  before : JsValue
  id : String
  path : String
  target : PatchTarget
  deriving DecidableEq

/-- `FieldExpectation`: the value of a field that a conflict is judged by. -/
structure FieldExpectation where
  id : String
  path : String
  target : PatchTarget
  value : JsValue
  deriving DecidableEq

/-- The status of `ActivityRecord`. -/
inductive ActivityStatus where
  | applied | undone
  deriving DecidableEq

/-- `ActivityRecord`: a command that was applied, with its patches. -/
structure ActivityRecord where
  actorId : String
  commandId : String
  id : String
  label : String
  patches : List FieldPatch
  status : ActivityStatus
  subjectIds : List String
  timestamp : String
  undoneAt : Option String
  deriving DecidableEq

/-- The types of `AuditEvent`. -/
inductive AuditType where
  | batchRedo | batchUndo | reapply | undo
  deriving DecidableEq

/-- `AuditEvent`: an undo or redo, which is not an activity. -/
structure AuditEvent where
  actorId : String
  id : String
  label : String
  targetActivityIds : List String
  timestamp : String
  type : AuditType
  deriving DecidableEq

/-- `WorkspaceState`: everything a workspace holds. -/
structure WorkspaceState where
  activities : List ActivityRecord
  audit : List AuditEvent
  commandReceipts : List String
  items : List ItemRecord
  locations : List Location
  plans : List MovePlan
  workspace : Workspace
  deriving DecidableEq

/-! ## 2. Commands -/

/-- A field of a location and the value to write there. -/
inductive LocationEntry where
  | archivedAt (v : Option String)
  | captureStatus (v : CaptureStatus)
  | code (v : String)
  | conditions (v : LocationConditions)
  | description (v : String)
  | dimensions (v : Option Dimensions)
  | kind (v : LocationKind)
  | name (v : String)
  | order (v : JsNumber)
  | parentId (v : Option String)
  | tags (v : List String)
  | updatedAt (v : String)
  deriving DecidableEq

/-- A field of the constraints of an item. -/
inductive ConstraintEntry where
  | avoidHumidity (v : Bool)
  | avoidWarmth (v : Bool)
  | foodOnly (v : Bool)
  | keepTogether (v : Option String)
  | requiredTags (v : List String)
  deriving DecidableEq

/-- A field of an item; `constraint` is a field inside `constraints`. -/
inductive ItemEntry where
  | archivedAt (v : Option String)
  | category (v : String)
  | constraints (v : ItemConstraints)
  | constraint (e : ConstraintEntry)
  | description (v : String)
  | dimensions (v : Option Dimensions)
  | frequency (v : Frequency)
  | locationId (v : String)
  | name (v : String)
  | order (v : JsNumber)
  | quantity (v : JsNumber)
  | tags (v : List String)
  | unit (v : String)
  | updatedAt (v : String)
  | version (v : Int)
  deriving DecidableEq

/-- The key of an entry of `location.update`. -/
def LocationEntry.key : LocationEntry → String
  | .archivedAt _ => "archivedAt"
  | .captureStatus _ => "captureStatus"
  | .code _ => "code"
  | .conditions _ => "conditions"
  | .description _ => "description"
  | .dimensions _ => "dimensions"
  | .kind _ => "kind"
  | .name _ => "name"
  | .order _ => "order"
  | .parentId _ => "parentId"
  | .tags _ => "tags"
  | .updatedAt _ => "updatedAt"

/-- The key of an entry of `constraints`. -/
def ConstraintEntry.key : ConstraintEntry → String
  | .avoidHumidity _ => "avoidHumidity"
  | .avoidWarmth _ => "avoidWarmth"
  | .foodOnly _ => "foodOnly"
  | .keepTogether _ => "keepTogether"
  | .requiredTags _ => "requiredTags"

/-- The key of an entry of `item.update`, with the path of a single constraint. -/
def ItemEntry.key : ItemEntry → String
  | .archivedAt _ => "archivedAt"
  | .category _ => "category"
  | .constraints _ => "constraints"
  | .constraint e => "constraints." ++ e.key
  | .description _ => "description"
  | .dimensions _ => "dimensions"
  | .frequency _ => "frequency"
  | .locationId _ => "locationId"
  | .name _ => "name"
  | .order _ => "order"
  | .quantity _ => "quantity"
  | .tags _ => "tags"
  | .unit _ => "unit"
  | .updatedAt _ => "updatedAt"
  | .version _ => "version"

/-- `Partial<Omit<Location, "id" | "createdAt">>`: an object, so every key once. -/
structure LocationChanges where
  entries : List LocationEntry
  nodup : (entries.map LocationEntry.key).Nodup
  deriving DecidableEq

/-- `Partial<Omit<ItemRecord, "id" | "createdAt">>`. -/
structure ItemChanges where
  entries : List ItemEntry
  nodup : (entries.map ItemEntry.key).Nodup
  deriving DecidableEq

/-- `Partial<ItemConstraints>`. -/
structure ConstraintChanges where
  entries : List ConstraintEntry
  nodup : (entries.map ConstraintEntry.key).Nodup
  deriving DecidableEq

/-- A field an edit of many items may change. -/
inductive BulkEntry where
  | category (v : String)
  | constraints (v : ConstraintChanges)
  | frequency (v : Frequency)
  | tags (v : List String)
  deriving DecidableEq

/-- The key of an entry of `item.bulkUpdate`. -/
def BulkEntry.key : BulkEntry → String
  | .category _ => "category"
  | .constraints _ => "constraints"
  | .frequency _ => "frequency"
  | .tags _ => "tags"

/-- `ItemBulkChanges`. -/
structure ItemBulkChanges where
  entries : List BulkEntry
  nodup : (entries.map BulkEntry.key).Nodup
  deriving DecidableEq

/-- One item of `item.bulkUpdate`. -/
structure BulkUpdate where
  id : String
  changes : ItemBulkChanges
  deriving DecidableEq

/-- `Command`. -/
inductive Command where
  | workspaceRename (name : String)
  | locationCreate (location : Location)
  | locationUpdate (id : String) (changes : LocationChanges) (reopenCompletedParents : Bool)
  | locationMove (id : String) (parentId : Option String) (order : Option JsNumber)
      (reopenCompletedParents : Bool)
  | locationReorder (id : String) (order : JsNumber)
  | locationArchive (id : String) (archived : Bool)
  | locationDelete (id : String) (descendantIds itemIds : List String)
  | captureEmpty (id : String) (itemIds : List String)
  | captureStatus (id : String) (status : CaptureStatus)
  | itemCreate (item : ItemRecord)
  | itemBulkCreate (items : List ItemRecord) (reopenCompletedParents : Bool)
  | itemUpdate (id : String) (changes : ItemChanges)
  | itemBulkUpdate (updates : List BulkUpdate) (reopenCompletedParents : Bool)
  | itemReorder (id : String) (order : JsNumber)
  | itemDelete (id : String)
  | itemMove (destinationId id : String) (quantity : JsNumber) (reopenCompletedParents : Bool)
  | itemBulkMove (destinationId : String) (itemIds : List String) (reopenCompletedParents : Bool)
  | planCreate (plan : MovePlan)
  | planStepComplete (planId stepId : String)
  | planStatus (planId : String) (status : PlanStatus)
  | historyUndo (activityId : String)
  | historyReapply (activityId : String)
  | historyBatchUndo (count : Int)
  | historyBatchRedo (count : Int)
  deriving DecidableEq

/-- `CommandAuthorizationBasis`: the revisions the sender had read. -/
structure CommandAuthorizationBasis where
  membershipRevision : Int
  workspaceAccessRevision : Int
  deriving DecidableEq

/-- `CommandEnvelope`. -/
structure CommandEnvelope where
  actorId : String
  authorization : Option CommandAuthorizationBasis := none
  baseRevision : Int
  command : Command
  deviceId : String
  id : String
  expectations : List FieldExpectation
  timestamp : String
  workspaceId : String
  deriving DecidableEq

/-- `CommandResult`: what `applyCommand` returns. -/
structure CommandResult where
  activity : Option ActivityRecord
  audit : Option AuditEvent
  state : WorkspaceState
  deriving DecidableEq

/-- The severities of `ValidationIssue`. -/
inductive Severity where
  | error | warning
  deriving DecidableEq

/-- `ValidationIssue`. -/
structure ValidationIssue where
  code : String
  message : String
  path : String
  severity : Severity
  deriving DecidableEq

/-- `SyncConflict`: a field that is no longer what the command expected. -/
structure SyncConflict where
  commandId : String
  current : JsValue
  expected : JsValue
  field : String
  id : String
  message : String
  target : PatchTarget
  deriving DecidableEq

/-! ## 3. What a refused command throws -/

/-- `DomainError`, `ConflictError`, or an error of the runtime itself. -/
inductive Thrown where
  | domain (code message : String)
  | conflict (message : String) (conflicts : List SyncConflict)
  | crash (message : String)
  deriving DecidableEq

/-- A function that may throw. -/
abbrev Result (α : Type) := Except Thrown α

/-- `if (condition) throw new DomainError(code, message)`. -/
def refuse (condition : Bool) (code message : String) : Result Unit :=
  if condition then .error (.domain code message) else .ok ()

/-- `if (condition) check(…)`. -/
def checkIf (condition : Bool) (check : Result Unit) : Result Unit :=
  if condition then check else .ok ()

/-- The value a lookup found, or the error thrown for a miss. -/
def orThrow {α : Type} (value : Option α) (code message : String) : Result α :=
  match value with
  | some a => .ok a
  | none => .error (.domain code message)

/-- A check passes iff its condition is false. -/
@[simp] theorem refuse_ok {c : Bool} {code message : String} {u : Unit} :
    refuse c code message = .ok u ↔ c = false := by
  cases c <;> simp [refuse]

/-- A conditional check passes iff it passes where the condition holds. -/
@[simp] theorem checkIf_ok {c : Bool} {check : Result Unit} {u : Unit} :
    checkIf c check = .ok u ↔ (c = true → check = .ok ()) := by
  cases c <;> simp [checkIf]

/-- What a lookup returns is what it found. -/
@[simp] theorem orThrow_ok {α : Type} {v : Option α} {code message : String} {a : α} :
    orThrow v code message = .ok a ↔ v = some a := by
  cases v <;> simp [orThrow]

/-- Two steps return iff the first does and the second does on its result. -/
@[simp] theorem result_bind_ok {α β : Type} {x : Result α} {f : α → Result β} {b : β} :
    (x >>= f) = .ok b ↔ ∃ a, x = .ok a ∧ f a = .ok b := by
  cases x with
  | error e => simp [bind, Except.bind]
  | ok a => simp [bind, Except.bind]

@[simp] theorem result_map_ok {α β : Type} {x : Result α} {f : α → β} {b : β} :
    (f <$> x) = .ok b ↔ ∃ a, x = .ok a ∧ f a = b := by
  cases x with
  | error e => simp [Functor.map, Except.map]
  | ok a => simp [Functor.map, Except.map]

@[simp] theorem result_pure_ok {α : Type} {a b : α} :
    (pure a : Result α) = .ok b ↔ a = b := by
  simp [pure, Except.pure]

@[simp] theorem result_throw_ok {α : Type} {e : Thrown} {b : α} :
    ¬ (throw e : Result α) = .ok b := by
  simp [throw, throwThe, MonadExceptOf.throw]

end Stowplan
