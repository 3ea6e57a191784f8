/-
  File:      Stowplan/Server/Synchronize.lean
  Subject:   CALLS OF `synchronize` OVER A COMPARE-AND-SWAP STORE (sync-service.ts,
  d1-snapshot-store.ts).

  The store keeps one snapshot of a workspace, with its revision, beside the tables that say who
  may write. A call loads the snapshot, applies its batch, and swaps the result in if the
  revision is still the one it loaded; otherwise it tries again. Between any two of these steps
  other calls take theirs.

  * `Database`: the tables, and the statements the store runs on them;
  * `attempt`: what a call makes of the snapshot it loaded;
  * `server`: the machine of all calls, and of changes of access;
  * `follow_reachable`: a schedule that the server can follow is a run of it.
-/
import Stowplan.Server.Sync
import Stowplan.Domain.Access
import Stowplan.Lib.Machine

namespace Stowplan

/-! ## 1. The store -/

/-- A row of `workspace_snapshots`; `state_json` is the text of the state. -/
structure SnapshotRow where
  revision : Int
  state : WorkspaceState

/-- What the store reads of `users`. -/
structure UserRow where
  active : Bool
  membershipRevision : Int

/-- The tables, as far as they are about one workspace. -/
structure Database where
  snapshot : Option SnapshotRow
  accessRevision : Int
  deleted : Bool
  members : String → Option WorkspaceRole
  users : String → Option UserRow

/-- `AuthorizedWorkspaceSnapshot`. -/
structure AuthorizedWorkspaceSnapshot where
  accessRevision : Int
  membershipRevision : Int
  role : WorkspaceRole
  state : WorkspaceState

/-- `WorkspaceAuthorizationState`. -/
structure WorkspaceAuthorizationState where
  accessRevision : Option Int
  active : Bool
  deleted : Bool
  membershipRevision : Int
  role : Option WorkspaceRole

/-- A revision that authorisation may be based on. -/
def isAuthorizationRevision (n : Int) : Bool := JsNumber.safeInt n && decide (0 ≤ n)

/-- The state of a row: normalised, and checked against the revision beside it. -/
def readState (row : SnapshotRow) : Result WorkspaceState :=
  match reload row.state with
  | none => .error (.crash "unrepresentable state")
  | some state =>
    if state.workspace.revision ≠ row.revision then
      .error (.crash "Stored workspace revision does not match its snapshot")
    else .ok state

namespace Database

/-- `load(workspaceId)`. -/
def load (db : Database) : Result (Option WorkspaceState) :=
  match db.snapshot with
  | none => .ok none
  | some row => do return some (← readState row)

/-- `loadAuthorized(workspaceId, userId)`. -/
def loadAuthorized (db : Database) (userId : String) :
    Result (Option AuthorizedWorkspaceSnapshot) :=
  match db.snapshot, db.members userId, db.users userId with
  | some row, some role, some user =>
    if !user.active || db.deleted then .ok none
    else if !isAuthorizationRevision db.accessRevision ||
        !isAuthorizationRevision user.membershipRevision then
      .error (.crash "Stored authorization revision is invalid")
    else do
      let state ← readState row
      return some {
        accessRevision := db.accessRevision
        membershipRevision := user.membershipRevision
        role
        state }
  | _, _, _ => .ok none

/-- `loadAuthorization(workspaceId, userId)`. -/
def loadAuthorization (db : Database) (userId : String) :
    Result (Option WorkspaceAuthorizationState) :=
  match db.users userId with
  | none => .ok none
  | some user =>
    if !isAuthorizationRevision user.membershipRevision ||
        (db.snapshot.isSome && !isAuthorizationRevision db.accessRevision) then
      .error (.crash "Stored authorization revision is invalid")
    else .ok (some {
      accessRevision := db.snapshot.map fun _ => db.accessRevision
      active := user.active
      deleted := db.deleted
      membershipRevision := user.membershipRevision
      -- a membership row stands beside the snapshot it is about
      role := db.snapshot.bind fun _ => db.members userId })

/-- `UPDATE workspace_snapshots … WHERE revision = ?`: the table after, if a row changed. -/
def compareAndSwap (db : Database) (expectedRevision : Int) (state : WorkspaceState) :
    Option Database :=
  match db.snapshot with
  | none => none
  | some row =>
    if row.revision = expectedRevision then
      some { db with snapshot := some ⟨state.workspace.revision, state⟩ }
    else none

/-- The user may write, and one of the two revisions is the expected one. -/
def mayWrite (db : Database) (userId : String) (basis : CommandAuthorizationBasis) : Bool :=
  !db.deleted &&
    match db.members userId, db.users userId with
    | some role, some user =>
      user.active && (role = .owner || role = .editor) &&
        (user.membershipRevision = basis.membershipRevision ||
          db.accessRevision = basis.workspaceAccessRevision)
    | _, _ => false

/-- `compareAndSwapAuthorized(…)`: the swap, under the conditions of its statement. -/
def compareAndSwapAuthorized (db : Database) (expectedRevision : Int) (state : WorkspaceState)
    (userId : String) (basis : CommandAuthorizationBasis) : Option Database :=
  if db.mayWrite userId basis then db.compareAndSwap expectedRevision state else none

end Database

/-! ## 2. One attempt -/

/-- `SyncAuthorizationContext`: who sends, and what it had read. -/
structure SyncAuthorizationContext where
  basis : CommandAuthorizationBasis
  userId : String

/-- Why a call is not authorised. -/
inductive AuthorizationFailure where
  | deleted | inactive | revoked | stale | write
  deriving DecidableEq

/-- `authorizationFailure`. -/
def authorizationFailure (authorization : Option WorkspaceAuthorizationState)
    (expected : CommandAuthorizationBasis) : Option (AuthorizationFailure × String) :=
  match authorization with
  | none => some (.inactive, "The signed-in account is no longer active")
  | some authorization =>
    if !authorization.active then some (.inactive, "The signed-in account is no longer active")
    else if authorization.deleted then some (.deleted, "The server workspace was deleted")
    else match authorization.role with
      | none => some (.revoked, "Workspace access was removed")
      | some .viewer => some (.write, "Viewer access does not allow workspace changes")
      | some _ =>
        if authorization.membershipRevision ≠ expected.membershipRevision &&
            authorization.accessRevision ≠ some expected.workspaceAccessRevision then
          some (.stale, "Workspace access changed after these edits were created")
        else none

/-- The receipt that `existingById` has: the last one with the identifier. -/
def receiptFor (receipts : List SyncReceipt) (commandId : String) : Option SyncReceipt :=
  receipts.reverse.find? fun receipt => receipt.commandId = commandId

/-- `authorizationReceipts`. -/
def authorizationReceipts (commands : List CommandEnvelope) (revision : Int) (message : String)
    (existing : List SyncReceipt) : List SyncReceipt :=
  commands.zipIdx.map fun (command, index) =>
    let commandId := receiptId command index
    let refused : SyncReceipt := {
      commandId, message := some message, revision, status := .rejected }
    match receiptFor existing commandId with
    | some receipt => if receipt.status = .duplicate then receipt else refused
    | none => refused

/-- What a call throws. -/
inductive SyncFailure where
  | authorization (failure : AuthorizationFailure) (message : String)
      (receipts : List SyncReceipt) (revision : Int)
      (authorization : Option WorkspaceAuthorizationState)
  | busy
  | notFound
  | thrown (error : Thrown)

/-- What was loaded, as an authorization. -/
def AuthorizedWorkspaceSnapshot.authorization (authorized : AuthorizedWorkspaceSnapshot) :
    WorkspaceAuthorizationState where
  accessRevision := some authorized.accessRevision
  active := true
  deleted := false
  membershipRevision := authorized.membershipRevision
  role := some authorized.role

/-- `authorizedSnapshot`. -/
def authorizedSnapshot (db : Database) (commands : List CommandEnvelope)
    (context : SyncAuthorizationContext) : Except SyncFailure WorkspaceState := do
  match ← (db.loadAuthorized context.userId).mapError .thrown with
  | some authorized =>
    let refusal := if commands.isEmpty then none
      else authorizationFailure (some authorized.authorization) context.basis
    let revision := authorized.state.workspace.revision
    match refusal with
    | none => return authorized.state
    | some (failure, message) =>
      throw (.authorization failure message (authorizationReceipts commands revision message [])
        revision (some authorized.authorization))
  | none =>
    let current ← (db.loadAuthorization context.userId).mapError .thrown
    let (failure, message) := (authorizationFailure current context.basis).getD
      (.revoked, "Workspace access is unavailable")
    throw (.authorization failure message (authorizationReceipts commands 0 message []) 0 current)

/-- The snapshot an attempt starts from. -/
def loadInitial (db : Database) (commands : List CommandEnvelope)
    (authorization : Option SyncAuthorizationContext) : Except SyncFailure WorkspaceState :=
  match authorization with
  | some context => authorizedSnapshot db commands context
  | none => do
    match ← db.load.mapError .thrown with
    | some state => return state
    | none => throw .notFound

/-- The swap of an attempt. -/
def swapState (db : Database) (expectedRevision : Int) (state : WorkspaceState)
    (authorization : Option SyncAuthorizationContext) : Option Database :=
  match authorization with
  | some context =>
    db.compareAndSwapAuthorized expectedRevision state context.userId context.basis
  | none => db.compareAndSwap expectedRevision state

/-- After a swap that changed nothing: the call ends if access is gone. -/
def refusalAfterSwap (db : Database) (initial : WorkspaceState) (receipts : List SyncReceipt)
    (commands : List CommandEnvelope) (authorization : Option SyncAuthorizationContext) :
    Except SyncFailure Unit :=
  match authorization with
  | none => .ok ()
  | some context => do
    let current ← (db.loadAuthorization context.userId).mapError .thrown
    match authorizationFailure current context.basis with
    | none => return ()
    | some (failure, message) =>
      let revision := initial.workspace.revision
      throw (.authorization failure message
        (authorizationReceipts commands revision message receipts) revision current)

/-! ## 3. All calls -/

/-- What a call loaded, and how much had been stored by then. -/
structure Loaded where
  initial : WorkspaceState
  seen : Nat

/-- A call that has not ended. -/
structure Call where
  commands : List CommandEnvelope
  authorization : Option SyncAuthorizationContext
  /-- The attempts left. -/
  attempts : Nat
  loaded : Option Loaded

/-- A response, with what it was made from. -/
structure Answer where
  commands : List CommandEnvelope
  receipts : List SyncReceipt
  snapshot : WorkspaceState
  source : Loaded

/-- The turns of the batch that was answered. -/
def Answer.turns [Host] (a : Answer) : List Turn :=
  turnsOf a.source.initial (startBatch a.source.initial) a.commands

/-- The database, the calls in flight, and what was answered and thrown so far. `history` are
    the turns whose result was stored, in the order of the swaps. -/
structure Server where
  db : Database
  calls : List Call
  answers : List Answer
  failures : List SyncFailure
  history : List Turn

/-- What happens to a server. -/
inductive ServerAction where
  | access
  | receive
  | load
  | answer
  | swap
  | swapUnanswered
  | retry
  | fail

section Machine

variable [Host]

/-- Where a call that has not ended can throw. -/
inductive Fails (S : Server) (call : Call) : SyncFailure → Prop where
  | busy (h : call.attempts = 0) (hl : call.loaded = none) : Fails S call .busy
  | load {e : SyncFailure} (hl : call.loaded = none)
      (h : loadInitial S.db call.commands call.authorization = .error e) : Fails S call e
  | batch {e : Thrown} {l : Loaded} (hl : call.loaded = some l)
      (h : syncBatch l.initial call.commands = .error e) : Fails S call (.thrown e)
  /-- The account may store no larger snapshot, or the database fails. -/
  | store (e : Thrown) {l : Loaded} (hl : call.loaded = some l) : Fails S call (.thrown e)
  | refused {e : SyncFailure} {l : Loaded} {b : Batch} (hl : call.loaded = some l)
      (h : syncBatch l.initial call.commands = .ok b) (ha : b.applied = true)
      (hs : swapState S.db l.initial.workspace.revision b.state call.authorization = none)
      (hr : refusalAfterSwap S.db l.initial b.receipts call.commands call.authorization =
        .error e) : Fails S call e

/-- One step of one call, or of the tables that say who may write. -/
inductive ServerStep (workspaceId : String) : Server → ServerAction → Server → Prop where
  | access (S : Server) (db : Database) (h : db.snapshot = S.db.snapshot) :
      ServerStep workspaceId S .access { S with db }
  | receive (S : Server) (call : Call)
      (h : ∀ envelope ∈ call.commands, envelope.workspaceId = workspaceId)
      (hl : call.loaded = none) :
      ServerStep workspaceId S .receive { S with calls := S.calls ++ [call] }
  | load (S : Server) (before after : List Call) (call : Call) (n : Nat)
      (initial : WorkspaceState) (hcalls : S.calls = before ++ call :: after)
      (hl : call.loaded = none) (hn : call.attempts = n + 1)
      (h : loadInitial S.db call.commands call.authorization = .ok initial) :
      ServerStep workspaceId S .load { S with
        calls := before ++ { call with
          attempts := n
          loaded := some ⟨initial, S.history.length⟩ } :: after }
  | answer (S : Server) (before after : List Call) (call : Call) (l : Loaded) (b : Batch)
      (hcalls : S.calls = before ++ call :: after) (hl : call.loaded = some l)
      (h : syncBatch l.initial call.commands = .ok b) (ha : b.applied = false) :
      ServerStep workspaceId S .answer { S with
        calls := before ++ after
        answers := S.answers ++ [⟨call.commands, b.receipts, b.state, l⟩] }
  | swap (S : Server) (before after : List Call) (call : Call) (l : Loaded) (b : Batch)
      (db : Database) (hcalls : S.calls = before ++ call :: after) (hl : call.loaded = some l)
      (h : syncBatch l.initial call.commands = .ok b) (ha : b.applied = true)
      (hs : swapState S.db l.initial.workspace.revision b.state call.authorization = some db) :
      ServerStep workspaceId S .swap { S with
        db
        calls := before ++ after
        answers := S.answers ++ [⟨call.commands, b.receipts, b.state, l⟩]
        history := S.history ++
          appliedTurns (turnsOf l.initial (startBatch l.initial) call.commands) }
  /-- The result is stored, but the call ends before it can tell. -/
  | swapUnanswered (S : Server) (before after : List Call) (call : Call) (l : Loaded) (b : Batch)
      (db : Database) (hcalls : S.calls = before ++ call :: after) (hl : call.loaded = some l)
      (h : syncBatch l.initial call.commands = .ok b) (ha : b.applied = true)
      (hs : swapState S.db l.initial.workspace.revision b.state call.authorization = some db) :
      ServerStep workspaceId S .swapUnanswered { S with
        db
        calls := before ++ after
        history := S.history ++
          appliedTurns (turnsOf l.initial (startBatch l.initial) call.commands) }
  | retry (S : Server) (before after : List Call) (call : Call) (l : Loaded) (b : Batch)
      (hcalls : S.calls = before ++ call :: after) (hl : call.loaded = some l)
      (h : syncBatch l.initial call.commands = .ok b) (ha : b.applied = true)
      (hs : swapState S.db l.initial.workspace.revision b.state call.authorization = none)
      (hr : refusalAfterSwap S.db l.initial b.receipts call.commands call.authorization = .ok ()) :
      ServerStep workspaceId S .retry { S with
        calls := before ++ { call with loaded := none } :: after }
  | fail (S : Server) (before after : List Call) (call : Call) (e : SyncFailure)
      (hcalls : S.calls = before ++ call :: after) (h : Fails S call e) :
      ServerStep workspaceId S .fail { S with
        calls := before ++ after
        failures := S.failures ++ [e] }

/-- The server of a workspace whose stored snapshot is `s₀`. -/
def server (workspaceId : String) (s₀ : WorkspaceState) : Machine Server ServerAction where
  init S := S.db.snapshot = some ⟨s₀.workspace.revision, s₀⟩ ∧ S.calls = [] ∧ S.answers = [] ∧
    S.failures = [] ∧ S.history = []
  step := ServerStep workspaceId

/-! ### Schedules -/

/-- A turn of a schedule: the roles change, a call comes in, or a call goes on. `told` says
    whether its response arrives. -/
inductive ServerTurn where
  | access (members : String → Option WorkspaceRole)
  | receive (call : Call)
  | next (i : Nat) (told : Bool)

/-- A call ends with a failure. -/
def Server.fail (S : Server) (i : Nat) (e : SyncFailure) : Server :=
  { S with calls := S.calls.eraseIdx i, failures := S.failures ++ [e] }

/-- What a call does that has loaded. -/
def Server.finish (S : Server) (i : Nat) (call : Call) (l : Loaded) (told : Bool) : Server :=
  match syncBatch l.initial call.commands with
  | .error e => S.fail i (.thrown e)
  | .ok b =>
    let answers := S.answers ++ [⟨call.commands, b.receipts, b.state, l⟩]
    if b.applied then
      match swapState S.db l.initial.workspace.revision b.state call.authorization with
      | some db => { S with
          db
          calls := S.calls.eraseIdx i
          answers := if told then answers else S.answers
          history := S.history ++
            appliedTurns (turnsOf l.initial (startBatch l.initial) call.commands) }
      | none =>
        match refusalAfterSwap S.db l.initial b.receipts call.commands call.authorization with
        | .ok _ => { S with calls := S.calls.set i { call with loaded := none } }
        | .error e => S.fail i e
    else { S with calls := S.calls.eraseIdx i, answers }

/-- A call goes on: it loads, or it finishes. -/
def Server.next (S : Server) (i : Nat) (call : Call) (told : Bool) : Server :=
  match call.loaded with
  | some l => S.finish i call l told
  | none =>
    match call.attempts with
    | 0 => S.fail i .busy
    | n + 1 =>
      match loadInitial S.db call.commands call.authorization with
      | .error e => S.fail i e
      | .ok initial => { S with
          calls := S.calls.set i { call with
            attempts := n
            loaded := some ⟨initial, S.history.length⟩ } }

/-- One turn of a schedule. -/
def Server.turn (workspaceId : String) (S : Server) : ServerTurn → Option Server
  | .access members => some { S with db := { S.db with members } }
  | .receive call =>
    if call.commands.all (·.workspaceId = workspaceId) && call.loaded.isNone then
      some { S with calls := S.calls ++ [call] }
    else none
  | .next i told => S.calls[i]?.map fun call => S.next i call told

section Schedules

variable {workspaceId : String} {S T : Server} {i : Nat} {call : Call}

omit [Host] in
/-- The calls around one of them. -/
theorem calls_around (h : S.calls[i]? = some call) : ∃ before after,
    S.calls = before ++ call :: after ∧ S.calls.eraseIdx i = before ++ after ∧
      ∀ c, S.calls.set i c = before ++ c :: after := by
  obtain ⟨hi, hget⟩ := List.getElem?_eq_some_iff.mp h
  refine ⟨S.calls.take i, S.calls.drop (i + 1), ?_, List.eraseIdx_eq_take_drop_succ .., fun c =>
    List.set_eq_take_append_cons_drop.trans (if_pos hi)⟩
  rw [← hget, List.getElem_cons_drop, List.take_append_drop]

theorem fail_step (h : S.calls[i]? = some call) {e : SyncFailure} (he : Fails S call e) :
    ∃ a, ServerStep workspaceId S a (S.fail i e) := by
  obtain ⟨before, after, hcalls, herase, -⟩ := calls_around h
  unfold Server.fail
  rw [herase]
  exact ⟨_, .fail S before after call e hcalls he⟩

theorem finish_step (h : S.calls[i]? = some call) {l : Loaded} (hl : call.loaded = some l)
    (told : Bool) : ∃ a, ServerStep workspaceId S a (S.finish i call l told) := by
  obtain ⟨before, after, hcalls, herase, hset⟩ := calls_around h
  unfold Server.finish
  split
  · rename_i e hb
    exact fail_step h (.batch hl hb)
  · rename_i b hb
    dsimp only
    rw [herase, hset]
    split
    · rename_i ha
      split
      · rename_i db hs
        cases told with
        | true => exact ⟨_, .swap S before after call l b db hcalls hl hb ha hs⟩
        | false => exact ⟨_, .swapUnanswered S before after call l b db hcalls hl hb ha hs⟩
      · rename_i hs
        split
        · rename_i hr
          exact ⟨_, .retry S before after call l b hcalls hl hb ha hs hr⟩
        · rename_i e hr
          exact fail_step h (.refused hl hb ha hs hr)
    · rename_i ha
      exact ⟨_, .answer S before after call l b hcalls hl hb (Bool.eq_false_iff.mpr ha)⟩

theorem next_step (h : S.calls[i]? = some call) (told : Bool) :
    ∃ a, ServerStep workspaceId S a (S.next i call told) := by
  obtain ⟨before, after, hcalls, -, hset⟩ := calls_around h
  unfold Server.next
  split
  · rename_i l hl
    exact finish_step h hl told
  · rename_i hl
    split
    · rename_i hn
      exact fail_step h (.busy hn hl)
    · rename_i n hn
      split
      · rename_i e he
        exact fail_step h (.load hl he)
      · rename_i initial hinitial
        rw [hset]
        exact ⟨_, .load S before after call n initial hcalls hl hn hinitial⟩

theorem turn_serverStep {turn : ServerTurn} (h : S.turn workspaceId turn = some T) :
    ∃ a, ServerStep workspaceId S a T := by
  cases turn with
  | access members =>
      cases h
      exact ⟨_, .access S _ rfl⟩
  | receive call =>
      unfold Server.turn at h
      dsimp only at h
      split at h
      · rename_i hc
        cases h
        rw [Bool.and_eq_true, List.all_eq_true] at hc
        exact ⟨_, .receive S call (fun e he => of_decide_eq_true (hc.1 e he))
          (Option.isNone_iff_eq_none.mp hc.2)⟩
      · cases h
  | next i told =>
      obtain ⟨call, hcall, rfl⟩ := Option.map_eq_some_iff.mp h
      exact next_step hcall told

/-- **A schedule that the server can follow reaches a state of it.** -/
theorem follow_reachable {s₀ : WorkspaceState} {turns : List ServerTurn}
    (hS : (server workspaceId s₀).Reachable S)
    (h : Machine.follow (Server.turn workspaceId) S turns = some T) :
    (server workspaceId s₀).Reachable T := by
  obtain ⟨s, as, hinit, hrun⟩ := hS
  obtain ⟨bs, hbs⟩ := Machine.Run.of_follow (M := server workspaceId s₀)
    (fun _ _ _ => turn_serverStep) h
  exact ⟨s, as ++ bs, hinit, hrun.append hbs⟩

end Schedules

end Machine

end Stowplan
