/-
  File:      Stowplan/Client/Replica.lean
  Subject:   THE REPLICA OF A WORKSPACE ON A DEVICE (local-replica.ts).

  A replica is a state and a queue: the commands that made the state and that the server has not
  acknowledged yet. An entry of the queue waits or is blocked, and carries the account it was
  made under. Before a replica is changed, it is normalised.

  * `selectPendingSyncBatch`: the commands the next request carries;
  * `scopeOutboxForWorkspaceAccess`: the queue after the access to the workspace changed;
  * `normalizeLocalReplica`: a stored replica, read again;
  * `reconcileReplica`: the replica after a response.
-/
import Stowplan.Domain.Access
import Stowplan.Server.Sync

namespace Stowplan

/-! ## 1. The queue -/

/-- The status of `OutboxEntry`. -/
inductive OutboxStatus where
  | pending | blocked
  deriving DecidableEq

/-- `OutboxEntry`: a command that waits for its receipt, with the account it was made under. -/
structure OutboxEntry where
  accountId : AccountRef
  envelope : CommandEnvelope
  error : Option String := none
  status : OutboxStatus
  deriving DecidableEq

/-- `LocalReplica`: what a device stores of a workspace. -/
structure LocalReplica where
  authorization : Option WorkspaceAccessState
  lastSyncAttemptAt : Option String
  lastSyncError : Option String
  lastSyncedAt : Option String
  outbox : List OutboxEntry
  serverSummary : Option ServerWorkspaceSummary
  state : WorkspaceState
  updatedAt : String

/-- The identifier of the command an entry carries. -/
abbrev OutboxEntry.commandId (entry : OutboxEntry) : String := entry.envelope.id

/-- `command.type`. -/
def Command.type : Command → String
  | .workspaceRename .. => "workspace.rename"
  | .locationCreate .. => "location.create"
  | .locationUpdate .. => "location.update"
  | .locationMove .. => "location.move"
  | .locationReorder .. => "location.reorder"
  | .locationArchive .. => "location.archive"
  | .locationDelete .. => "location.delete"
  | .captureEmpty .. => "capture.empty"
  | .captureStatus .. => "capture.status"
  | .itemCreate .. => "item.create"
  | .itemBulkCreate .. => "item.bulkCreate"
  | .itemUpdate .. => "item.update"
  | .itemBulkUpdate .. => "item.bulkUpdate"
  | .itemReorder .. => "item.reorder"
  | .itemDelete .. => "item.delete"
  | .itemMove .. => "item.move"
  | .itemBulkMove .. => "item.bulkMove"
  | .planCreate .. => "plan.create"
  | .planStepComplete .. => "plan.step.complete"
  | .planStatus .. => "plan.status"
  | .historyUndo .. => "history.undo"
  | .historyReapply .. => "history.reapply"
  | .historyBatchUndo .. => "history.batchUndo"
  | .historyBatchRedo .. => "history.batchRedo"

/-- `command.type.replaceAll(".", " ")`. -/
def Command.words (command : Command) : String :=
  String.ofList (command.type.toList.map fun c => if c = '.' then ' ' else c)

/-- `LEGACY_OUTBOX_ACCOUNT_ERROR`. -/
def legacyOutboxAccountError : String :=
  "This queued change predates account-scoped access. It was retained for recovery and must be " ++
    "reviewed before reapplying it."

/-- `SERVER_DELETION_OUTBOX_ERROR`. -/
def serverDeletionOutboxError : String :=
  "The server workspace was deleted before this local change was backed up. It was retained for " ++
    "recovery."

/-- `outboxEntryAccountId(accountId)`. -/
def outboxEntryAccountId (accountId : AccountRef) : AccountRef :=
  match accountId.optional with
  | some text => .id text
  | none => .undefined

/-- `hasForeignPendingWork(outbox, accountId)`. -/
def hasForeignPendingWork (outbox : List OutboxEntry) (accountId : AccountRef) : Bool :=
  match accountId.optional with
  | none => false
  | some current => outbox.any fun entry =>
      entry.status = .pending && entry.accountId.optional.any (· ≠ current)

/-! ## 2. What is sent -/

/-- The longest run of entries of the account with the basis of the first. -/
def batchFrom (accountId : Option AccountRef) (expected : Option CommandAuthorizationBasis)
    (pending : List OutboxEntry) : List OutboxEntry :=
  pending.takeWhile fun entry =>
    accountId.all (workspaceAccountIdsMatch entry.accountId ·) &&
      decide (expected = entry.envelope.authorization)

/-- `selectPendingSyncBatch(outbox, accountId)`; `none` is `undefined`. -/
def selectPendingSyncBatch (outbox : List OutboxEntry) (accountId : Option AccountRef) :
    List OutboxEntry :=
  let pending := outbox.filter fun entry => entry.status = .pending
  match pending with
  | [] => []
  | first :: _ =>
    if !accountId.all (workspaceAccountIdsMatch first.accountId ·) then []
    else (batchFrom accountId first.envelope.authorization pending).take commandsPerSyncRequest

/-! ## 3. The queue after a change of access -/

/-- The entry, blocked with the error. -/
def OutboxEntry.block (entry : OutboxEntry) (error : String) : OutboxEntry :=
  { entry with
    error := some error
    status := .blocked }

/-- The entry under the account, if it has none. -/
def OutboxEntry.attribute (entry : OutboxEntry) (accountId : AccountRef) : OutboxEntry :=
  if entry.accountId = .undefined then { entry with accountId } else entry

/-- `blockPendingOutboxAfterServerDeletion(outbox)`. -/
def blockPendingOutboxAfterServerDeletion (outbox : List OutboxEntry) : List OutboxEntry :=
  outbox.map fun entry =>
    if entry.status = .pending then
      entry.block (entry.envelope.command.words ++ ": " ++ serverDeletionOutboxError)
    else entry

/-- An entry from before entries had accounts waits for its review. -/
def OutboxEntry.retain (entry : OutboxEntry) : OutboxEntry :=
  if entry.status = .pending && entry.accountId = .undefined then
    { entry.block (entry.envelope.command.words ++ ": " ++ legacyOutboxAccountError) with
      accountId := .null }
  else entry

/-- Whether an account property names an account: a text that is not empty. -/
def AccountRef.truthy : AccountRef → Bool
  | .id text => text ≠ ""
  | _ => false

/-- `scopeOutboxForWorkspaceAccount(outbox, current, candidate)`: the entries of a device-only
    workspace become the account's, those of another account are set aside. -/
def scopeOutboxForWorkspaceAccount (outbox : List OutboxEntry)
    (current candidate : WorkspaceAccessState) : List OutboxEntry :=
  if candidate.kind ≠ .server || !candidate.accountId.truthy then outbox
  else if current.kind = .deviceOnly then outbox.map (·.attribute candidate.accountId)
  else if workspaceAccountIdsMatch current.accountId candidate.accountId then outbox
  else if current.accountId.truthy then outbox.map (·.attribute current.accountId)
  else outbox.map (·.retain)

/-- `scopeOutboxForWorkspaceAccess(outbox, current, candidate)`. -/
def scopeOutboxForWorkspaceAccess (outbox : List OutboxEntry)
    (current candidate : WorkspaceAccessState) : List OutboxEntry :=
  let scopedOutbox := scopeOutboxForWorkspaceAccount outbox current candidate
  if candidate.kind = .server && candidate.status = .deleted then
    blockPendingOutboxAfterServerDeletion scopedOutbox
  else scopedOutbox

/-! ## 4. A stored replica, read again -/

/-- `SIGN_IN_BACKUP_ERROR`. -/
def signInBackupError : String := "Remote backup is paused until you sign in again."

/-- `LEGACY_SIGN_IN_BACKUP_ERROR`. -/
def legacySignInBackupError : String := "Sign in to back up this workspace."

/-- `isSignInBackupError(message)`. -/
def isSignInBackupError (message : Option String) : Bool :=
  message = some signInBackupError || message = some legacySignInBackupError

/-- The account property of a stored entry. -/
def AccountRef.normalize : AccountRef → AccountRef
  | .undefined => .undefined
  | .null => .null
  | .id text => if blank text then .null else .id (trim text)

/-- The orders the queue itself tells of items, the latest first. -/
def inferExpectations (inferred : List (String × JsNumber)) :
    List FieldExpectation → List (String × JsNumber)
  | [] => inferred
  | e :: rest =>
    if e.target = .item && e.path = "" && e.value.isRecord && (e.value.get "order").isFiniteNum then
      inferExpectations ((e.id, numberOf (e.value.get "order")) :: inferred) rest
    else inferExpectations inferred rest

/-- The order an entry of the queue gives its item. -/
def inferEntry (inferred : List (String × JsNumber)) (envelope : CommandEnvelope) :
    List (String × JsNumber) :=
  let created := match envelope.command with
    | .itemCreate item =>
      if item.order.isFinite then (item.id, item.order) :: inferred else inferred
    | _ => inferred
  inferExpectations created envelope.expectations

/-- The order an expectation of a whole item lacks, from the item. -/
def orderExpectation (items : List ItemRecord) (e : FieldExpectation) : FieldExpectation :=
  if e.target ≠ .item || e.path ≠ "" || !e.value.isRecord || (e.value.get "order").isFiniteNum then e
  else match mapGet ItemRecord.id e.id items with
    | some current => { e with value := e.value.setKey "order" (.num current.order) }
    | none => e

/-- The order a created item lacks, from the item or the queue. -/
def orderCommand (items : List ItemRecord) (inferred : List (String × JsNumber))
    (command : Command) : List (String × JsNumber) × Command :=
  match command with
  | .itemCreate item =>
    if item.order.isFinite then (inferred, command)
    else
      let order := ((mapGet ItemRecord.id item.id items).map (·.order)).or
        (orderOf item.id inferred) |>.getD 0
      (if item.id = "" then inferred else (item.id, order) :: inferred,
        .itemCreate { item with order })
  | _ => (inferred, command)

/-- The loop that gives the orders. -/
def orderOutbox (items : List ItemRecord) :
    List (String × JsNumber) → List OutboxEntry → List OutboxEntry
  | _, [] => []
  | inferred, entry :: rest =>
    let (inferred', command) := orderCommand items inferred entry.envelope.command
    { entry with
      envelope := { entry.envelope with
        command
        expectations := entry.envelope.expectations.map (orderExpectation items) } } ::
      orderOutbox items inferred' rest

/-- A stored entry with its envelope and its account normalised. -/
def OutboxEntry.normalize (entry : OutboxEntry) : OutboxEntry :=
  { entry with
    accountId := entry.accountId.normalize
    envelope := normalizeCommandEnvelope entry.envelope }

/-- The queue of a stored replica whose items are given. -/
def normalizeOutbox (items : List ItemRecord) (outbox : List OutboxEntry) : List OutboxEntry :=
  let entries := outbox.map (·.normalize)
  let inferred := entries.foldl (fun inferred entry => inferEntry inferred entry.envelope)
    (items.reverse.map fun item => (item.id, item.order))
  orderOutbox items inferred entries

/-- `normalizeWorkspaceState(structuredClone(state))`, as a typed state. -/
def normalizedState (state : WorkspaceState) : Result WorkspaceState :=
  match normalized state with
  | some state => .ok state
  | none => .error (.crash "unrepresentable state")

/-- `normalizeLocalReplica(replica)`. -/
def normalizeLocalReplica (replica : LocalReplica) : Result LocalReplica := do
  let state ← normalizedState replica.state
  let serverSummary := replica.serverSummary.bind normalizeServerWorkspaceSummary
  let authorization := match replica.authorization, serverSummary with
    | none, some summary =>
      workspaceAccessFromSummary summary
        ((replica.lastSyncAttemptAt.or replica.lastSyncedAt).getD summary.updatedAt)
    | authorization, _ => normalizeWorkspaceAccessState authorization
  return { replica with
    authorization := some authorization
    lastSyncError :=
      if authorization.kind = .deviceOnly && isSignInBackupError replica.lastSyncError then none
      else replica.lastSyncError
    outbox := normalizeOutbox state.items replica.outbox
    serverSummary
    state }

/-! ## 5. The replica after a response -/

section Reconcile

variable [Host]

/-- `canRebaseQueuedCommand(state, baseRevision, priorCommandIds)`. -/
def canRebaseQueuedCommand (state : WorkspaceState) (baseRevision : Int)
    (priorCommandIds : List String) : Bool :=
  let applied := (uniq priorCommandIds).filter (wasApplied state)
  !applied.isEmpty && state.workspace.revision = baseRevision + applied.length

/-- `byId.get(commandId)`: the last receipt of the command. -/
def receiptOf (receipts : List SyncReceipt) (commandId : String) : Option SyncReceipt :=
  mapGet SyncReceipt.commandId commandId receipts

/-- `receipt.conflicts?.map(conflict => conflict.message).join("; ")`. -/
def conflictMessages (receipt : SyncReceipt) : Option String :=
  receipt.conflicts.map fun conflicts =>
    String.intercalate "; " (conflicts.map (·.message))

/-- The command is on the server. -/
def SyncReceipt.saved (receipt : SyncReceipt) : Bool :=
  receipt.status = .applied || receipt.status = .duplicate

/-- What a response leaves of an entry. -/
def remainingEntry (sentIds : List String) (receipts : List SyncReceipt) (entry : OutboxEntry) :
    Option OutboxEntry :=
  if !sentIds.contains entry.commandId then some entry
  else match receiptOf receipts entry.commandId with
    | some receipt =>
      if receipt.saved then none
      else some (entry.block
        ((receipt.message.or (conflictMessages receipt)).getD "Server rejected this change"))
    | none => some (entry.block "The server did not acknowledge this change")

/-- `for (const entry of outbox) state = applyCommand(state, entry.envelope).state`. -/
def applyAll (state : WorkspaceState) : List OutboxEntry → Result WorkspaceState
  | [] => .ok state
  | entry :: rest => do
    let result ← applyCommand state entry.envelope
    applyAll result.state rest

/-- `latest.state.workspace.revision - latest.outbox.length`. -/
def confirmedLocalRevision (replica : LocalReplica) : Int :=
  replica.state.workspace.revision - replica.outbox.length

/-- The queue after a response. -/
def remaining (latest : LocalReplica) (sent : List OutboxEntry) (receipts : List SyncReceipt) :
    List OutboxEntry :=
  latest.outbox.filterMap (remainingEntry (sent.map (·.commandId)) receipts)

/-- The state after a response: a blocked entry freezes it. -/
def rebasedState (latest serverNormalized : WorkspaceState) (outbox : List OutboxEntry) :
    Result WorkspaceState :=
  if outbox.any fun entry => entry.status = .blocked then .ok latest
  else applyAll serverNormalized outbox

/-- Whether a response is set aside: its snapshot is too old, or none of its commands is in the
    queue any more. -/
def setAside (latest : LocalReplica) (sent : List OutboxEntry) (serverState : WorkspaceState) :
    Bool :=
  decide (serverState.workspace.revision < confirmedLocalRevision latest) ||
    (decide (0 < sent.length) && !latest.outbox.any fun entry =>
      (sent.map (·.commandId)).contains entry.commandId)

/-- `reconcileReplica(latest, sent, serverState, receipts)`. -/
def reconcileReplica (latest : LocalReplica) (sent : List OutboxEntry)
    (serverState : WorkspaceState) (receipts : List SyncReceipt) : Result LocalReplica :=
  if setAside latest sent serverState then .ok latest
  else do
    let outbox := remaining latest sent receipts
    let serverNormalized ← normalizedState serverState
    let state ← rebasedState latest.state serverNormalized outbox
    return { latest with
      outbox
      state }

end Reconcile

end Stowplan
