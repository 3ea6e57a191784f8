/-
  File:      Stowplan/Domain/Commands/Apply.lean
  Subject:   HISTORY AND `applyCommand` (commands.ts): undoing and reapplying recorded
  activities, and the engine as a whole.

  A command either changes records and is recorded as an activity, or replays the patches of
  recorded activities, forwards or backwards. A replay must leave a snapshot that the import
  check accepts, except for issues of compatible kinds that were there before.
-/
import Stowplan.Domain.Commands.Normal

namespace Stowplan

open Keyed JsValue

/-! ## 1. Conflicts -/

/-- `expectation.path || "(entire record)"`. -/
def conflictField (path : String) : String := if path = "" then "(entire record)" else path

/-- The current value is the expected one; the order of an item may be missing in the latter. -/
def expectationMatches (expectation : FieldExpectation) (current : JsValue) : Bool :=
  equal current expectation.value ||
    (expectation.target = .item && expectation.path = "" && current.isRecord &&
      expectation.value.isRecord && !expectation.value.hasOwn "order" &&
      equal (current.delKey "order") expectation.value)

/-- The expectations of a command that the state does not meet. -/
def expectationConflicts (state : WorkspaceState) (commandId : String) :
    List FieldExpectation → Result (List SyncConflict)
  | [] => .ok []
  | expectation :: rest => do
    let current ← readPatchValue state expectation.target expectation.id expectation.path
    let more ← expectationConflicts state commandId rest
    return (if expectationMatches expectation current then [] else [{
      commandId
      current
      expected := expectation.value
      field := conflictField expectation.path
      id := expectation.id
      message := "This field changed on another device"
      target := expectation.target }]) ++ more

/-- The two directions history is replayed in. -/
inductive Direction where
  | undo | reapply
  deriving DecidableEq

/-- The word of a direction in a message. -/
def Direction.word : Direction → String
  | .undo => "undo"
  | .reapply => "reapply"

/-- A patch the other way round. -/
def reversePatch (p : FieldPatch) : FieldPatch := { p with after := p.before, before := p.after }

/-- `reversePatches(patches)`: the last patch is taken back first. -/
def reversePatches (patches : List FieldPatch) : List FieldPatch :=
  patches.reverse.map reversePatch

/-- The patches a replay in the direction makes. -/
def replayPatches (direction : Direction) (patches : List FieldPatch) : List FieldPatch :=
  match direction with
  | .undo => reversePatches (meaningfulActivityPatches patches)
  | .reapply => meaningfulActivityPatches patches

/-- The loop of `historyConflicts` over the patches on a working copy. -/
def historyConflictsLoop (direction : Direction) (commandId : String) :
    WorkspaceState → List FieldPatch → Result (List SyncConflict)
  | _, [] => .ok []
  | working, p :: rest => do
    let current ← readPatchValue working p.target p.id p.path
    if !equal current p.before then do
      let more ← historyConflictsLoop direction commandId working rest
      return {
        commandId
        current
        expected := p.before
        field := conflictField p.path
        id := p.id
        message := s!"Cannot {direction.word}; the affected value changed later"
        target := p.target } :: more
    else do
      let working ← applyFieldPatch working p
      historyConflictsLoop direction commandId working rest

/-- `historyConflicts(state, activity, direction, commandId)`. -/
def historyConflicts (state : WorkspaceState) (activity : ActivityRecord)
    (direction : Direction) (commandId : String) : Result (List SyncConflict) :=
  historyConflictsLoop direction commandId state (replayPatches direction activity.patches)

/-! ## 2. Replaying -/

/-- The identifiers of the records of a kind that field patches change. -/
def touchedIds (target : PatchTarget) (patches : List FieldPatch) : List String :=
  uniq ((patches.filter fun p => p.path ≠ "" && p.target = target).map (·.id))

/-- A new version and timestamp for each item. -/
def touchItems (timestamp : String) : List ItemRecord → List String → Result (List ItemRecord)
  | items, [] => .ok items
  | items, id :: rest =>
    match findKey ItemRecord.id id items with
    | none => touchItems timestamp items rest
    | some item => do
      let version ← nextItemVersion item
      touchItems timestamp
        (setFirst ItemRecord.id id { item with version, updatedAt := timestamp } items) rest

/-- A new timestamp for each location. -/
def touchLocations (timestamp : String) : List Location → List String → List Location
  | locations, [] => locations
  | locations, id :: rest =>
    match findKey Location.id id locations with
    | none => touchLocations timestamp locations rest
    | some location =>
      touchLocations timestamp
        (setFirst Location.id id { location with updatedAt := timestamp } locations) rest

/-- `touchHistoryRecords(state, patches, timestamp)`: the records a replay has changed get a time
    and a version. -/
def touchHistoryRecords (state : WorkspaceState) (patches : List FieldPatch)
    (timestamp : String) : Result WorkspaceState := do
  let items ← touchItems timestamp state.items (touchedIds .item patches)
  return { state with
    items
    locations := touchLocations timestamp state.locations (touchedIds .location patches) }

/-- The status an activity must have for a replay, and the one it has after. -/
def Direction.expects : Direction → ActivityStatus
  | .undo => .applied
  | .reapply => .undone

/-- The status a replay leaves an activity in. -/
def Direction.leaves : Direction → ActivityStatus
  | .undo => .undone
  | .reapply => .applied

/-- The record of the activity with its new status. -/
def markActivity (direction : Direction) (timestamp : String) (id : String)
    (activities : List ActivityRecord) : List ActivityRecord :=
  match findKey ActivityRecord.id id activities with
  | none => activities
  | some stored => setFirst ActivityRecord.id id { stored with
      status := direction.leaves
      undoneAt := match direction with
        | .undo => some timestamp
        | .reapply => none } activities

/-- One activity replayed on the working copy. -/
def replayActivity (direction : Direction) (envelope : CommandEnvelope)
    (working : WorkspaceState) (activity : ActivityRecord) : Result WorkspaceState := do
  refuse (activity.status ≠ direction.expects) "HISTORY_STATUS"
    s!"{activity.label} is already {activity.status.word}"
  let conflicts ← historyConflicts working activity direction envelope.id
  checkIf (!conflicts.isEmpty)
    (throw (.conflict s!"Cannot {direction.word} {activity.label}" conflicts))
  let working ← applyPatches working (replayPatches direction activity.patches)
  let working ← touchHistoryRecords working (meaningfulActivityPatches activity.patches)
    envelope.timestamp
  return { working with
    activities := markActivity direction envelope.timestamp activity.id working.activities }

/-- The activities replayed one after another, each checked against the state it meets. -/
def replayActivities (direction : Direction) (envelope : CommandEnvelope) :
    WorkspaceState → List ActivityRecord → Result WorkspaceState
  | working, [] => .ok working
  | working, activity :: rest => do
    let working ← replayActivity direction envelope working activity
    replayActivities direction envelope working rest

/-- `${candidate.code}:${candidate.message}`. -/
def issueKey (candidate : ValidationIssue) : String := s!"{candidate.code}:{candidate.message}"

/-- An error of a kind that old snapshots may have. -/
def isBaselineIssue (candidate : ValidationIssue) : Bool :=
  candidate.severity = .error && isLegacyCompatibleIssue candidate

/-- The first error that is not among the compatible ones counted before; each of those excuses
    one issue with its key. -/
def firstInvalid : List String → List ValidationIssue → Option ValidationIssue
  | _, [] => none
  | baseline, candidate :: rest =>
    if candidate.severity ≠ .error then firstInvalid baseline rest
    else if !isLegacyCompatibleIssue candidate then some candidate
    else if baseline.contains (issueKey candidate) then
      firstInvalid (baseline.erase (issueKey candidate)) rest
    else some candidate

/-- The direction an event stands for. -/
def AuditType.direction : AuditType → Direction
  | .undo | .batchUndo => .undo
  | .reapply | .batchRedo => .reapply

section Engine

variable [Host]

/-- `applyHistoryAction(state, envelope, type, activities)`. -/
def applyHistoryAction (state : WorkspaceState) (envelope : CommandEnvelope) (type : AuditType)
    (activities : List ActivityRecord) : Result CommandResult := do
  let direction := type.direction
  let before ← validateSnapshot (encode state)
  let baseline := (before.filter isBaselineIssue).map issueKey
  let working ← replayActivities direction envelope state activities
  let after ← validateSnapshot (encode working)
  match firstInvalid baseline after with
  | some invalid =>
    throw (.domain "HISTORY_INVALID"
      s!"Cannot {direction.word}; it would make the workspace invalid ({invalid.message})")
  | none =>
    let audit : AuditEvent := {
      actorId := envelope.actorId
      id := s!"audit_{envelope.id}"
      label := (if direction = .undo then "Undid " else "Reapplied ") ++
        s!"{activities.length} change{plural activities.length}"
      targetActivityIds := activities.map (·.id)
      timestamp := envelope.timestamp
      type := type }
    return {
      activity := none
      audit := some audit
      state := { working with
        audit := working.audit ++ [audit]
        workspace := { working.workspace with
          revision := working.workspace.revision + 1
          updatedAt := envelope.timestamp } } }

/-- The applied activities from the last one back. -/
def undoable (state : WorkspaceState) : List ActivityRecord :=
  state.activities.reverse.filter fun a => a.status = .applied

/-- The undone activities an audit names, from its last one back, with the ones chosen so far.
    `undone` is a map from identifiers: the last activity with one counts. -/
def chooseUndone (undone : List ActivityRecord) :
    List ActivityRecord → List String → List ActivityRecord
  | chosen, [] => chosen
  | chosen, id :: rest =>
    match mapGet ActivityRecord.id id undone with
    | some activity =>
      if (chosen.map (·.id)).contains id then chooseUndone undone chosen rest
      else chooseUndone undone (chosen ++ [activity]) rest
    | none => chooseUndone undone chosen rest

/-- The undone activities, the most recently undone first. -/
def redoable (state : WorkspaceState) : List ActivityRecord :=
  let undone := state.activities.filter fun a => a.status = .undone
  let named := (state.audit.reverse.filter fun a =>
    a.type = .undo || a.type = .batchUndo).flatMap fun a => a.targetActivityIds.reverse
  let chosen := chooseUndone undone [] named
  chosen ++ undone.filter fun a => !(chosen.map (·.id)).contains a.id

/-- The commands of the history, which find their activities first. -/
def applyHistoryCommand (state : WorkspaceState) (envelope : CommandEnvelope) :
    Result CommandResult :=
  match envelope.command with
  | .historyUndo activityId => do
    let activity ← orThrow (findKey ActivityRecord.id activityId state.activities)
      "ACTIVITY_NOT_FOUND" "Activity was not found"
    applyHistoryAction state envelope .undo [activity]
  | .historyReapply activityId => do
    let activity ← orThrow (findKey ActivityRecord.id activityId state.activities)
      "ACTIVITY_NOT_FOUND" "Activity was not found"
    applyHistoryAction state envelope .reapply [activity]
  | .historyBatchUndo count => do
    refuse (decide (count < 1)) "INVALID_COUNT" "Undo count must be a positive integer"
    let activities := (undoable state).take count.toNat
    refuse (decide ((activities.length : Int) ≠ count)) "HISTORY_RANGE"
      "There are not that many applied changes"
    applyHistoryAction state envelope .batchUndo activities
  | .historyBatchRedo count => do
    refuse (decide (count < 1)) "INVALID_COUNT" "Redo count must be a positive integer"
    let activities := (redoable state).take count.toNat
    refuse (decide ((activities.length : Int) ≠ count)) "HISTORY_RANGE"
      "There are not that many undone changes"
    applyHistoryAction state envelope .batchRedo activities
  | _ => .error (.domain "UNSUPPORTED_HISTORY" "Unsupported history command")

/-! ## 3. The engine -/

/-- `normalizeItemExpectation`. -/
def normalizeItemExpectation (e : FieldExpectation) : FieldExpectation :=
  if e.target ≠ .item then e
  else if e.path = "notes" then { e with path := "description" }
  else if e.path = "" then { e with value := normalizeItemDescription e.value }
  else e

/-- `normalizeCommandEnvelope`: the records of a typed command have no old names, its
    expectations may. -/
def normalizeCommandEnvelope (envelope : CommandEnvelope) : CommandEnvelope :=
  { envelope with expectations := envelope.expectations.map normalizeItemExpectation }

/-- The loop of `validateEnvelopeRuntime` over the expectations. -/
def validateExpectations : List FieldExpectation → Result Unit
  | [] => .ok ()
  | e :: rest => do
    refuse (blank e.id) "INVALID_EXPECTATION" "Field expectation is malformed"
    checkIf (e.path ≠ "") (do
      let _ ← pathKeys e.path)
    validateExpectations rest

/-- `validateEnvelopeRuntime(envelope)`. -/
def validateEnvelopeRuntime (envelope : CommandEnvelope) : Result Unit := do
  refuse (blank envelope.id || blank envelope.workspaceId || blank envelope.actorId ||
      blank envelope.deviceId || !Host.isDate envelope.timestamp ||
      !JsNumber.safeInt envelope.baseRevision || decide (envelope.baseRevision < 0))
    "INVALID_COMMAND" "Command envelope is malformed"
  validateExpectations envelope.expectations

/-- `command.type.startsWith("history.")`. -/
def Command.isHistory : Command → Bool
  | .historyUndo _ | .historyReapply _ | .historyBatchUndo _ | .historyBatchRedo _ => true
  | _ => false

/-- The checks `applyCommand` makes of every command. -/
def checkEnvelope (current : WorkspaceState) (envelope : CommandEnvelope) : Result Unit := do
  validateEnvelopeRuntime envelope
  refuse (envelope.workspaceId ≠ current.workspace.id) "WRONG_WORKSPACE"
    "Command belongs to another workspace"
  refuse (!JsNumber.safeInt current.workspace.revision ||
      decide (JsNumber.maxSafeInteger ≤ current.workspace.revision)) "REVISION_EXHAUSTED"
    "The workspace revision counter is invalid or exhausted"
  refuse (decide (current.workspace.revision < envelope.baseRevision)) "REVISION_AHEAD"
    "Command was created from a future workspace revision"
  let conflicts ← expectationConflicts current envelope.id envelope.expectations
  checkIf (!conflicts.isEmpty)
    (throw (.conflict "The command conflicts with a newer change" conflicts))

/-- The record of a change. -/
def activityOf (envelope : CommandEnvelope) (change : Change) : ActivityRecord where
  actorId := envelope.actorId
  commandId := envelope.id
  id := s!"activity_{envelope.id}"
  label := change.label
  patches := meaningfulActivityPatches change.patches
  status := .applied
  subjectIds := uniq change.subjectIds
  timestamp := envelope.timestamp
  undoneAt := none

/-- A command that changes records. -/
def applyNormalCommand (current : WorkspaceState) (envelope : CommandEnvelope) :
    Result CommandResult := do
  let change ← normalPatches current envelope
  let state ← applyPatches current change.patches
  let activity := activityOf envelope change
  return {
    activity := some activity
    audit := none
    state := { state with
      activities := state.activities ++ [activity]
      workspace := { state.workspace with
        revision := state.workspace.revision + 1
        updatedAt := envelope.timestamp } } }

/-- `applyCommand(current, envelope)`. -/
def applyCommand (current : WorkspaceState) (envelope : CommandEnvelope) :
    Result CommandResult := do
  let envelope := normalizeCommandEnvelope envelope
  checkEnvelope current envelope
  if envelope.command.isHistory then applyHistoryCommand current envelope
  else applyNormalCommand current envelope

end Engine

end Stowplan
