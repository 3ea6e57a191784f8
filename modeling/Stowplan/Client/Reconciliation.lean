/-
  File:      Stowplan/Client/Reconciliation.lean
  Subject:   WHAT CHANGES A REPLICA (sync-reconciliation.ts, local-replica.ts, store.tsx).

  Every response may tell of the access to the workspace; that part is taken over when it is
  newer than what the device knows. A successful response acknowledges commands; a refused one
  blocks those it was about, or leaves them waiting when it says nothing definite. Access also
  changes on its own, and a local edit adds an entry to the queue.

  * `applySuccessfulSyncResponse`, `applyRefusedSyncResponse`: responses;
  * `writeWorkspaceAuthorization`, `applyConfirmedServerDeletion`, `openServerWorkspace`: access;
  * `enqueue`: a local edit;
  * `flushBatch`: what a flush sends.
-/
import Stowplan.Client.Replica

namespace Stowplan

open Keyed

/-- `SyncServerContext`: what a response says of the access, beside the receipts. -/
structure SyncServerContext where
  authorization : Option WorkspaceAccessState
  summary : Option ServerWorkspaceSummary

/-- `inaccessibleWorkspaceAccess(value, accountId, checkedAt)`. -/
def inaccessibleWorkspaceAccess (value : WorkspaceAccessState) (accountId checkedAt : String) :
    WorkspaceAccessState :=
  let current := normalizeWorkspaceAccessState (some value)
  { accountId := .id accountId
    accessRevision := current.accessRevision
    capabilities := readOnlyCapabilities
    checkedAt := some checkedAt
    kind := .server
    membershipRevision := current.membershipRevision
    role := none
    status := .unknown }

/-- `commandContext(replica, commandId)`: what a refused command is called. -/
def commandContext (replica : LocalReplica) (commandId : String) : String :=
  match findKey ActivityRecord.commandId commandId replica.state.activities with
  | some activity => activity.label
  | none => match findKey OutboxEntry.commandId commandId replica.outbox with
    | some queued => queued.envelope.command.words
    | none => "Queued workspace change"

/-- The receipt's own words for a refusal, or the message of the response. -/
def refusalText (receipt : Option SyncReceipt) (message : String) : String :=
  match receipt with
  | some receipt => (receipt.message.or (conflictMessages receipt)).getD message
  | none => message

section Context

variable [Collation]

/-- `applyServerContext(replica, context)`, on the replica. -/
def applyServerContext (replica : LocalReplica) (context : SyncServerContext) : LocalReplica :=
  let currentAccess := normalizeWorkspaceAccessState replica.authorization
  let currentSummary := replica.serverSummary.bind normalizeServerWorkspaceSummary
  let nextAuthorization := match context.authorization with
    | some authorization =>
      if shouldApplyWorkspaceAccess currentAccess authorization then authorization
      else currentAccess
    | none => currentAccess
  let nextSummary := match context.summary, currentSummary with
    | none, current => current
    | some summary, none => some summary
    | some summary, some current =>
      if !workspaceAccountIdsMatch summary.accountId current.accountId ||
          0 ≤ compareServerWorkspaceSummaries summary current then some summary
      else some current
  { replica with
    authorization := some nextAuthorization
    outbox := scopeOutboxForWorkspaceAccess replica.outbox currentAccess nextAuthorization
    serverSummary := nextSummary }

/-- An entry after a definite refusal of the batch. -/
def refuseEntry (replica : LocalReplica) (sentIds : List String) (receipts : List SyncReceipt)
    (message : String) (entry : OutboxEntry) : OutboxEntry :=
  if entry.status ≠ .pending || !sentIds.contains entry.commandId then entry
  else entry.block (commandContext replica entry.commandId ++ ": " ++
    refusalText (receiptOf receipts entry.commandId) message)

/-- `applyRefusedSyncResponse(replica, sent, receipts, message, attemptedAt, definitive, context)`.
    -/
def applyRefusedSyncResponse (replica : LocalReplica) (sent : List OutboxEntry)
    (receipts : List SyncReceipt) (message attemptedAt : String) (definitive : Bool)
    (context : SyncServerContext) : LocalReplica :=
  let current := applyServerContext replica context
  { current with
    lastSyncAttemptAt := some attemptedAt
    lastSyncError := some message
    outbox := if definitive then
        current.outbox.map (refuseEntry replica (sent.map (·.commandId)) receipts message)
      else current.outbox }

/-- `applySuccessfulSyncResponse(replica, sent, serverState, receipts, syncedAt, context)`. -/
def applySuccessfulSyncResponse [Host] (replica : LocalReplica) (sent : List OutboxEntry)
    (serverState : WorkspaceState) (receipts : List SyncReceipt) (syncedAt : String)
    (context : SyncServerContext) : Result LocalReplica := do
  let reconciled ← reconcileReplica replica sent serverState receipts
  return { applyServerContext reconciled context with
    lastSyncAttemptAt := some syncedAt
    lastSyncError := none
    lastSyncedAt := some syncedAt }

/-! ## 2. Changes of access -/

/-- `workspaceAccessVersionsMatch`-guarded updates throw when the access has changed since. -/
def authorizationConflict : Thrown :=
  .domain "WORKSPACE_AUTHORIZATION_CHANGED" "Workspace access changed while it was being refreshed."

/-- `normalizeReplicaServerSummary(workspaceId, serverSummary)`; the outer `none` is
    `undefined`. -/
def normalizeReplicaServerSummary (workspaceId : String) :
    Option (Option ServerWorkspaceSummary) → Result (Option (Option ServerWorkspaceSummary))
  | none => .ok none
  | some none => .ok (some none)
  | some (some summary) =>
    match normalizeServerWorkspaceSummary summary with
    | none => .error (.crash "Invalid server workspace summary")
    | some summary =>
      if summary.id ≠ workspaceId then
        .error (.crash "Server workspace summary does not match the local replica")
      else .ok (some (some summary))

/-- `resolveReplicaServerSummary(current, candidate)`: of two summaries of one account, the later
    one. -/
def resolveReplicaServerSummary (current : Option ServerWorkspaceSummary)
    (candidate : Option (Option ServerWorkspaceSummary)) : Option ServerWorkspaceSummary :=
  match candidate, current with
  | none, current => current
  | some none, _ => none
  | some (some candidate), none => some candidate
  | some (some candidate), some current =>
    if !workspaceAccountIdsMatch candidate.accountId current.accountId ||
        0 ≤ compareServerWorkspaceSummaries candidate current then some candidate
    else some current

/-- The later of two deletions of the same account. -/
def laterDeletion (candidate existing : WorkspaceAccessState) : WorkspaceAccessState :=
  normalizeWorkspaceAccessState (some { candidate with
    accessRevision := max candidate.accessRevision existing.accessRevision
    membershipRevision := max candidate.membershipRevision existing.membershipRevision })

/-- `applyConfirmedServerDeletion(current, authorization, serverSummary)`. -/
def applyConfirmedServerDeletion (current : LocalReplica) (authorization : WorkspaceAccessState)
    (serverSummary : Option (Option ServerWorkspaceSummary)) : Result LocalReplica :=
  let candidate := normalizeWorkspaceAccessState (some authorization)
  if candidate.kind ≠ .server || candidate.status ≠ .deleted then
    .error (.crash "Confirmed server deletion requires deleted access")
  else do
    let existing := normalizeWorkspaceAccessState current.authorization
    let nextAuthorization :=
      if existing.kind = .server && existing.status = .deleted &&
          workspaceAccountIdsMatch existing.accountId candidate.accountId then
        laterDeletion candidate existing
      else candidate
    let normalizedServer ← normalizeReplicaServerSummary current.state.workspace.id serverSummary
    return { current with
      authorization := some nextAuthorization
      outbox := scopeOutboxForWorkspaceAccess current.outbox existing nextAuthorization
      serverSummary := resolveReplicaServerSummary
        (current.serverSummary.bind normalizeServerWorkspaceSummary) normalizedServer }

/-- The update of `writeWorkspaceAuthorizationIfUnchanged`, where `unchanged` is
    `workspaceAccessVersionsMatch(currentAccess, expectedAccess)`. -/
def writeWorkspaceAuthorization (current : LocalReplica) (authorization : WorkspaceAccessState)
    (unchanged : Bool) (serverSummary : Option (Option ServerWorkspaceSummary)) :
    Result LocalReplica := do
  let candidate := normalizeWorkspaceAccessState (some authorization)
  let normalizedServer ← normalizeReplicaServerSummary current.state.workspace.id serverSummary
  let currentAccess := normalizeWorkspaceAccessState current.authorization
  if !unchanged || !shouldApplyWorkspaceAccess currentAccess candidate then
    .error authorizationConflict
  else .ok { current with
    authorization := some candidate
    outbox := scopeOutboxForWorkspaceAccess current.outbox currentAccess candidate
    serverSummary := resolveReplicaServerSummary
      (current.serverSummary.bind normalizeServerWorkspaceSummary) normalizedServer }

/-- `activateOrInsertServerWorkspaceReplica(candidate)` where a replica exists: what was
    downloaded tells of the access, and the local copy stays. -/
def openServerWorkspace (existing : LocalReplica) (prepared : WorkspaceAccessState)
    (preparedSummary : ServerWorkspaceSummary) : LocalReplica :=
  let existingAuthorization := existing.authorization.getD deviceOnlyWorkspaceAccess
  { existing with
    authorization :=
      if shouldApplyWorkspaceAccess existingAuthorization prepared then some prepared
      else existing.authorization
    outbox := scopeOutboxForWorkspaceAccess existing.outbox existingAuthorization prepared
    serverSummary := match existing.serverSummary with
      | none => some preparedSummary
      | some current =>
        if !workspaceAccountIdsMatch preparedSummary.accountId current.accountId ||
            0 ≤ compareServerWorkspaceSummaries preparedSummary current then some preparedSummary
        else some current }

end Context

/-! ## 3. Edits and flushes -/

/-- `visibleWorkspaceAccess(replica, accountId, confirmedTerminalAccess)`. -/
def visibleWorkspaceAccess (replica : LocalReplica) (accountId : AccountRef)
    (confirmedTerminalAccess : Option WorkspaceAccessState) : WorkspaceAccessState :=
  let access := workspaceAccessForAccount (confirmedTerminalAccess.or replica.authorization)
    accountId
  if access.kind ≠ .server || !hasForeignPendingWork replica.outbox accountId then access
  else normalizeWorkspaceAccessState (some { access with
    accountId
    capabilities := readOnlyCapabilities
    role := none
    status := .unknown })

/-- The update of `dispatch`: the command is applied, and joins the queue under the account that
    is signed in. -/
def enqueue [Host] (current : LocalReplica) (accountId : AccountRef)
    (confirmedTerminalAccess : Option WorkspaceAccessState) (envelope : CommandEnvelope)
    (updatedAt : String) : Result LocalReplica := do
  requireWorkspaceWriteAccess (visibleWorkspaceAccess current accountId confirmedTerminalAccess)
  let result ← applyCommand current.state envelope
  return { current with
    outbox := current.outbox ++ [{
      accountId := outboxEntryAccountId accountId
      envelope
      status := .pending }]
    state := result.state
    updatedAt }

/-- The batch `flushWorkspace` sends of the replica it read, or nothing if it sends no request:
    with `allowEmpty` a request may carry no command. -/
def flushBatch (value : LocalReplica) (requestAccountId : String) (allowEmpty : Bool) :
    Option (List OutboxEntry) :=
  let storedAuthorization := normalizeWorkspaceAccessState value.authorization
  if storedAuthorization.kind = .server &&
      !workspaceAccountIdsMatch storedAuthorization.accountId (.id requestAccountId) then none
  else
    let pendingCount := (value.outbox.filter fun entry => entry.status = .pending).length
    let batch := selectPendingSyncBatch value.outbox
      (if storedAuthorization.kind = .server then some (.id requestAccountId) else none)
    if 0 < pendingCount && batch.isEmpty then none
    else if !allowEmpty && batch.isEmpty then none
    else some batch

/-- `mutateWorkspaceReplica(workspaceId, update)` of a stored replica. -/
def mutateWorkspaceReplica (replica : LocalReplica) (update : LocalReplica → Result LocalReplica) :
    Result LocalReplica := do
  update (← normalizeLocalReplica replica)

end Stowplan
