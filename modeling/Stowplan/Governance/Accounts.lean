/-
  File:      Stowplan/Governance/Accounts.lean
  Subject:   ACCOUNTS UNDER GOVERNANCE (account-governance.ts).

  Administrators change the global role and the status of accounts, ban them and lift bans. An
  account is deleted by its holder, after the custody of its workspaces has been planned.

  * `changeGlobalRole`, `changeAccountStatus`, `banAccount`, `liftAccountBan`;
  * `prepareAccountDeletion`: what stands against a deletion, and who takes custody;
  * `executeAccountDeletion`: the preparation, and one batch that looks again.
-/
import Stowplan.Governance.Membership

namespace Stowplan.Governance

open Tables Program

/-! ## 1. Preparing a deletion -/

/-- `AccountDeletionBlocker`. -/
inductive Blocker where
  | accountInactive
  | globalAdmin
  | finalAdmin
  | finalWorkspaceOwner (workspaceId : String)
  | custodyTransferUnavailable (workspaceId : String)
  deriving DecidableEq

/-- A workspace that passes from a deleted account to another owner. -/
structure CustodyTransfer where
  fromUserId : String
  toUserId : String
  workspaceId : String
  deriving DecidableEq

/-- A workspace in the custody of the account, with the bytes it counts for. -/
structure CustodyWorkspace where
  workspaceId : String
  snapshotBytes : Nat

/-- An owner who could take a workspace over, with what it already has in custody. -/
structure CustodyCandidate where
  workspaceId : String
  candidateUserId : String
  createdAt : Timestamp
  candidateCount : Nat
  candidateBytes : Nat

/-- The workspaces and the bytes an account would have in custody. -/
structure Usage where
  bytes : Nat
  count : Nat

namespace Tables

variable (T : Tables)

/-- The workspaces that an account alone owns. -/
def finalOwnedWorkspaces (userId : String) : List String :=
  ((T.members.rows.filter fun owned => owned.userId = userId && owned.role = .owner &&
    !T.isDeleted owned.workspaceId && !T.otherOwner owned.workspaceId userId).map
      (·.workspaceId)).insertionSort (· ≤ ·)

/-- The custody of an account, in the order of the workspaces. -/
def custodyOf (userId : String) : List CustodyWorkspace :=
  (T.custody.rows.filterMap fun c =>
    if c.custodianUserId = userId then
      (T.snapshots.get c.workspaceId).map fun s => ⟨c.workspaceId, s.storedBytes⟩
    else none).insertionSort fun a b => a.workspaceId ≤ b.workspaceId

/-- The other active owners of a workspace, the longest member first, with what each has in its
    custody now. -/
def custodyCandidates (userId workspaceId : String) : List CustodyCandidate :=
  (T.members.rows.filterMap fun m =>
    if m.workspaceId = workspaceId ∧ m.role = .owner ∧ m.userId ≠ userId ∧ T.live m.userId then
      some ⟨workspaceId, m.userId, m.createdAt, T.custodyCount m.userId none,
        T.custodyBytes m.userId none⟩
    else none).insertionSort fun a b =>
      a.createdAt < b.createdAt ∨ (a.createdAt = b.createdAt ∧ a.candidateUserId ≤ b.candidateUserId)

end Tables

/-- What a candidate has in its custody, counting what it was given in this plan. -/
def CustodyCandidate.usage (projected : String → Option Usage) (c : CustodyCandidate) : Usage :=
  (projected c.candidateUserId).getD ⟨c.candidateBytes, c.candidateCount⟩

/-- The candidate has room for one more workspace of this size. -/
def CustodyCandidate.fits (projected : String → Option Usage) (bytes : Nat)
    (c : CustodyCandidate) : Bool :=
  decide ((c.usage projected).count < ownedWorkspacesPerUser) &&
    decide ((c.usage projected).bytes + bytes ≤ aggregateSnapshotBytesPerAccount)

/-- The first candidate with capacity takes each workspace. -/
def custodyPlan (userId : String) (candidates : List CustodyCandidate) :
    List CustodyWorkspace → (String → Option Usage) → List Blocker × List CustodyTransfer
  | [], _ => ([], [])
  | target :: rest, projected =>
    match candidates.find? fun c => c.workspaceId = target.workspaceId &&
        c.fits projected target.snapshotBytes with
    | none =>
      let (blockers, transfers) := custodyPlan userId candidates rest projected
      (.custodyTransferUnavailable target.workspaceId :: blockers, transfers)
    | some selected =>
      let usage := selected.usage projected
      let (blockers, transfers) := custodyPlan userId candidates rest fun user =>
        if user = selected.candidateUserId then
          some ⟨usage.bytes + target.snapshotBytes, usage.count + 1⟩
        else projected user
      (blockers, ⟨userId, selected.candidateUserId, target.workspaceId⟩ :: transfers)

/-- `AccountDeletionPreparation`: the revisions, what blocks the deletion, and the transfers
    planned. -/
structure AccountDeletionPreparation where
  accountRevision : Nat
  membershipRevision : Nat
  blockers : List Blocker
  custodyTransfers : List CustodyTransfer

/-- What stands against the account itself. -/
def accountBlockers (user : User) (activeAdmins : Nat) : List Blocker :=
  (if user.isLive then [] else [.accountInactive]) ++
    if user.globalRole = .admin ∧ user.isActive then
      .globalAdmin :: if activeAdmins ≤ 1 then [.finalAdmin] else []
    else []

/-- `prepareAccountDeletion(userId)`. -/
def prepareAccountDeletion (userId : String) : Access AccountDeletionPreparation := do
  let user ← read? (·.users.get userId) "NOT_FOUND_OR_INACCESSIBLE"
  let activeAdmins ← read (·.users.count User.isActiveAdmin)
  let owned ← read (·.finalOwnedWorkspaces userId)
  let custody ← read (·.custodyOf userId)
  let candidates ← read fun T =>
    (T.custodyOf userId).flatMap fun target => T.custodyCandidates userId target.workspaceId
  let (blockers, transfers) := custodyPlan userId candidates custody fun _ => none
  return {
    accountRevision := user.accountRevision
    membershipRevision := user.membershipRevision
    blockers := accountBlockers user activeAdmins ++ owned.map .finalWorkspaceOwner ++ blockers
    custodyTransfers := transfers }

/-! ## 2. Deletion -/

/-- The arguments of `executeAccountDeletion`. -/
structure AccountDeletion where
  userId : String
  confirmation : String
  /-- What `assertRecentAuthentication` says of the last sign-in. -/
  recentAuthentication : Bool
  expectedAccountRevision : Nat
  expectedMembershipRevision : Nat
  deletionId : String
  at' : Timestamp

/-- `custodyGuard`: each recipient has the capacity for all it is given, and each is an active
    owner of what it is given. -/
def Tables.custodyGuard (T : Tables) (transfers : List CustodyTransfer) : Bool :=
  transfers.all fun transfer =>
    let given := transfers.filter (·.toUserId = transfer.toUserId)
    T.live transfer.toUserId &&
      decide (T.custodyCount transfer.toUserId none + given.length ≤ ownedWorkspacesPerUser) &&
      decide (T.custodyBytes transfer.toUserId none +
        (given.map fun t => T.storedBytes t.workspaceId).sum ≤ aggregateSnapshotBytesPerAccount) &&
      T.role transfer.workspaceId transfer.toUserId = some .owner

/-- The account owns a workspace that no other active account owns. -/
def Tables.solelyOwns (T : Tables) (userId : String) : Bool :=
  T.members.any fun owned => owned.userId = userId && owned.role = .owner &&
    !T.otherOwner owned.workspaceId userId

/-- The conditions of the first statement. An account that is no administrator is not the last
    one. -/
def AccountDeletion.allowed (c : AccountDeletion) (transfers : List CustodyTransfer)
    (T : Tables) : Bool :=
  ((T.users.get c.userId).any fun u => u.isLive && u.globalRole = .user &&
    u.accountRevision = c.expectedAccountRevision &&
    u.membershipRevision = c.expectedMembershipRevision) &&
    !T.solelyOwns c.userId && T.custodyGuard transfers

/-- What the deletion sets in the row of the account. -/
def AccountDeletion.change (c : AccountDeletion) : UserChange where
  email := some (c.deletionId ++ "@deleted.invalid")
  displayName := some "Deleted user"
  globalRole := some .user
  status := some .disabled
  updatedAt := c.at'
  deletedAt := some c.at'

/-- The account was deleted at this time. -/
def Tables.deletedAt (T : Tables) (userId : String) (at' : Timestamp) : Bool :=
  (T.users.get userId).any (·.deletedAt = some at')

/-- One planned transfer, made only where the account is still the custodian. -/
def AccountDeletion.handOver (c : AccountDeletion) (T : Tables) (transfer : CustodyTransfer) :
    Option Tables :=
  if T.custodian transfer.workspaceId = some c.userId then
    T.setCustodian transfer.workspaceId transfer.toUserId
  else some T

/-- The statements after the first, for an account that is deleted. -/
def AccountDeletion.cleanup (c : AccountDeletion) (transfers : List CustodyTransfer)
    (T : Tables) : Option Tables := do
  let T ← T.forRows transfers c.handOver
  let T := T.revokeSessions c.at' (· = c.userId)
  let T ← T.revokeLinks c.userId c.at'
  let T ← T.deleteIdentities c.userId
  let T ← T.forRows (T.members.rows.filter (·.userId = c.userId))
    fun T m => T.deleteMember m.workspaceId m.userId
  return T.log none "account.delete" c.deletionId .empty

/-- The first statement. -/
def AccountDeletion.update (c : AccountDeletion) (transfers : List CustodyTransfer)
    (T : Tables) : Option Tables :=
  if c.allowed transfers T then T.updateUser c.userId c.change else some T

/-- The batch of a deletion: the account first, and the rest only where that update took effect. -/
def AccountDeletion.statements (c : AccountDeletion) (transfers : List CustodyTransfer)
    (T : Tables) : Option Tables := do
  let T ← c.update transfers T
  if T.deletedAt c.userId c.at' then c.cleanup transfers T else some T

/-- `executeAccountDeletion(…)`: an account deletes itself. -/
def executeAccountDeletion (c : AccountDeletion) : Access Unit := do
  require (c.confirmation = "DELETE") "CONFIRMATION_REQUIRED"
  require c.recentAuthentication "REAUTHENTICATION_REQUIRED"
  let preparation ← prepareAccountDeletion c.userId
  require (preparation.accountRevision = c.expectedAccountRevision ∧
    preparation.membershipRevision = c.expectedMembershipRevision) "ACCESS_STALE"
  require preparation.blockers.isEmpty "ACCOUNT_DELETION_BLOCKED"
  batchAs (.deletion c.userId (preparation.custodyTransfers.map (·.workspaceId)))
    (c.statements preparation.custodyTransfers)

/-! ## 3. Role and status -/

/-- The account an administrator changes, at the revision it expects. -/
def accountRow (userId : String) (expectedAccountRevision : Nat) : Access User := do
  let user ← read? (·.users.get userId) "NOT_FOUND_OR_INACCESSIBLE"
  require (user.accountRevision = expectedAccountRevision) "ACCESS_STALE"
  return user

/-- The arguments of `changeGlobalRole`. -/
structure GlobalRoleChange where
  actorUserId : String
  targetUserId : String
  role : GlobalRole
  expectedAccountRevision : Nat
  at' : Timestamp

/-- The conditions of its update statement. -/
def GlobalRoleChange.allowed (c : GlobalRoleChange) (T : Tables) : Bool :=
  ((T.users.get c.targetUserId).any fun u => u.accountRevision = c.expectedAccountRevision &&
    u.deletedAt.isNone && u.globalRole != c.role && (c.role != .admin || u.isActive)) &&
    T.activeAdmin c.actorUserId

/-- The first statements: the role, and the audit event. -/
def GlobalRoleChange.update (c : GlobalRoleChange) (T : Tables) : Option Tables :=
  if c.allowed T then do
    let T ← T.updateUser c.targetUserId { globalRole := some c.role, updatedAt := c.at' }
    return T.log (some c.actorUserId) "user.role" c.targetUserId (.globalRole c.role)
  else some T

/-- The batch: where the role was changed, the sessions of the account end. -/
def GlobalRoleChange.statements (c : GlobalRoleChange) (T : Tables) : Option Tables := do
  let T ← c.update T
  if (T.users.get c.targetUserId).any fun u => u.globalRole = c.role && u.updatedAt = c.at' then
    return T.revokeSessions c.at' (· = c.targetUserId)
  else return T

/-- `changeGlobalRole(…)`. -/
def changeGlobalRole (c : GlobalRoleChange) : Access Unit := do
  requireActiveAdmin c.actorUserId
  let before ← accountRow c.targetUserId c.expectedAccountRevision
  require (c.role = .admin → before.isLive) "INVALID_REQUEST"
  batch c.statements

/-- `active` or `disabled`; a ban has operations of its own. -/
inductive EnabledStatus where
  | active | disabled
  deriving DecidableEq

/-- The status of an account that is not banned. -/
def EnabledStatus.toStatus : EnabledStatus → AccountStatus
  | .active => .active
  | .disabled => .disabled

/-- The arguments of `changeAccountStatus`. -/
structure StatusChange where
  actorUserId : String
  targetUserId : String
  status : EnabledStatus
  expectedAccountRevision : Nat
  at' : Timestamp

/-- `hasRetainedIdentityBanDigests`. -/
def Tables.retainsBan (T : Tables) (userId : String) : Bool :=
  T.banDigests.any (·.sourceUserId = userId)

/-- The conditions of its update statement. -/
def StatusChange.allowed (c : StatusChange) (T : Tables) : Bool :=
  ((T.users.get c.targetUserId).any fun u => u.accountRevision = c.expectedAccountRevision &&
    u.deletedAt.isNone && u.status != c.status.toStatus && u.status != .banned) &&
    (c.status != .active || !T.retainsBan c.targetUserId) && T.activeAdmin c.actorUserId

/-- The first statements: the status, and the audit event. -/
def StatusChange.update (c : StatusChange) (T : Tables) : Option Tables :=
  if c.allowed T then do
    let T ← T.updateUser c.targetUserId { status := some c.status.toStatus, updatedAt := c.at' }
    return T.log (some c.actorUserId) "user.status" c.targetUserId (.status c.status.toStatus)
  else some T

/-- The account has the status since this time. -/
def Tables.statusSince (T : Tables) (userId : String) (status : AccountStatus)
    (at' : Timestamp) : Bool :=
  (T.users.get userId).any fun u => u.status = status && u.updatedAt = at'

/-- The batch: where the account was disabled, its sessions and its links end. -/
def StatusChange.statements (c : StatusChange) (T : Tables) : Option Tables := do
  let T ← c.update T
  if c.status = .disabled ∧ T.statusSince c.targetUserId .disabled c.at' then
    (T.revokeSessions c.at' (· = c.targetUserId)).revokeLinks c.targetUserId c.at'
  else some T

/-- The blockers a disabled or banned account shares with a deleted one. -/
def Blocker.isAuthority : Blocker → Bool
  | .finalAdmin => true
  | .finalWorkspaceOwner _ => true
  | _ => false

/-- An account that loses its status keeps no authority that no one else has. -/
def assertNoAuthority (userId : String) : Access Unit := do
  let preparation ← prepareAccountDeletion userId
  require (!preparation.blockers.any Blocker.isAuthority) "ACCOUNT_DELETION_BLOCKED"

/-- What each status asks: no retained ban, or no authority that only this account has. -/
def assertStatusChange (userId : String) : EnabledStatus → Access Unit
  | .active => do
    let retained ← read (·.retainsBan userId)
    require (!retained) "INVALID_REQUEST"
  | .disabled => assertNoAuthority userId

/-- `changeAccountStatus(…)`. -/
def changeAccountStatus (c : StatusChange) : Access Unit := do
  requireActiveAdmin c.actorUserId
  let target ← accountRow c.targetUserId c.expectedAccountRevision
  require (target.status ≠ .banned) "INVALID_REQUEST"
  require (target.status ≠ c.status.toStatus) "INVALID_REQUEST"
  assertStatusChange c.targetUserId c.status
  batch c.statements

/-! ## 4. Bans -/

/-- The arguments of `banAccount`. -/
structure Ban where
  actorUserId : String
  targetUserId : String
  reason : String
  expectedAccountRevision : Nat
  banTombstoneId : String
  at' : Timestamp

/-- The conditions of its update statement: an administrator is not banned. -/
def Ban.allowed (c : Ban) (T : Tables) : Bool :=
  ((T.users.get c.targetUserId).any fun u => u.accountRevision = c.expectedAccountRevision &&
    u.deletedAt.isNone && u.status != .banned && u.globalRole = .user) &&
    T.activeAdmin c.actorUserId

/-- What the ban sets in the row of the account. -/
def Ban.change (c : Ban) : UserChange where
  email := some (c.banTombstoneId ++ "@banned.invalid")
  displayName := some "Banned account"
  status := some .banned
  updatedAt := c.at'

/-- The row that keeps one identity of the account out. -/
def Ban.digestRow (c : Ban) (identityDigest : String) : BanDigest where
  identityDigest
  sourceUserId := c.targetUserId
  reason := c.reason
  createdAt := c.at'
  createdByUserId := c.actorUserId
  liftedAt := none
  liftedByUserId := none

/-- A digest that was kept from an earlier ban is enforced again. -/
def Ban.renew (c : Ban) (d : BanDigest) : BanDigest :=
  { d with
    reason := c.reason
    createdAt := c.at'
    createdByUserId := c.actorUserId
    liftedAt := none
    liftedByUserId := none }

/-- The identity of a digest stays its key. -/
theorem Ban.renew_key (c : Ban) (d : BanDigest) : Row.key (c.renew d) = Row.key d := rfl

/-- `INSERT … ON CONFLICT(identity_digest) DO UPDATE` for each digest, then the update of those
    that were kept. -/
def Ban.enforce (c : Ban) (digests : List String) (T : Tables) : Tables :=
  { T with
    banDigests := (digests.foldl (fun t d => t.put (c.digestRow d)) T.banDigests).update
      (·.sourceUserId = c.targetUserId) c.renew c.renew_key }

/-- The statements after the first, for an account that is banned. -/
def Ban.cleanup (c : Ban) (digests : List String) (T : Tables) : Option Tables := do
  let T := c.enforce digests T
  let T ← T.deleteIdentities c.targetUserId
  let T := T.revokeSessions c.at' (· = c.targetUserId)
  let T ← T.revokeLinks c.targetUserId c.at'
  return T.log (some c.actorUserId) "user.ban" c.targetUserId .empty

/-- The first statement. -/
def Ban.update (c : Ban) (T : Tables) : Option Tables :=
  if c.allowed T then T.updateUser c.targetUserId c.change else some T

/-- The batch of a ban: the account first, and the rest only where that update took effect. -/
def Ban.statements (c : Ban) (digests : List String) (T : Tables) : Option Tables := do
  let T ← c.update T
  if T.statusSince c.targetUserId .banned c.at' then c.cleanup digests T else some T

/-- `MAXIMUM_BAN_REASON_LENGTH`. -/
def maximumBanReasonLength : Nat := 500

/-- `requireReason(value)`: the trimmed reason, neither blank nor too long. -/
def requireReason (value : String) : Access String := do
  require (!blank value && decide (utf16Length (trim value) ≤ maximumBanReasonLength))
    "INVALID_REQUEST"
  return trim value

/-- The identities of an account. -/
def Tables.identitiesOf (T : Tables) (userId : String) : List Identity :=
  T.identities.rows.filter (·.userId = userId)

/-- An account without an identity has digests that were kept. -/
def assertEnforceable (userId : String) (identities : List Identity) : Access Unit :=
  if identities.isEmpty then do
    let retained ← read (·.retainsBan userId)
    require retained "INVALID_REQUEST"
  else return ()

/-- Only an active account is asked for the authority it has. -/
def assertActiveNoAuthority (target : User) : Access Unit :=
  if target.isActive then assertNoAuthority target.userId else return ()

/-- `digest` stands for `identityEnforcementDigest` under the key of the installation. -/
def banAccount (digest : String → String → String) (c : Ban) : Access Unit := do
  let reason ← requireReason c.reason
  requireActiveAdmin c.actorUserId
  let target ← accountRow c.targetUserId c.expectedAccountRevision
  require (target.status ≠ .banned) "INVALID_REQUEST"
  require (target.globalRole ≠ .admin) "ACCOUNT_DELETION_BLOCKED"
  assertActiveNoAuthority target
  let identities ← read (·.identitiesOf c.targetUserId)
  assertEnforceable c.targetUserId identities
  batchAs (.ban c.targetUserId)
    (Ban.statements { c with reason } (identities.map fun i => digest i.provider i.providerSubject))

/-- The arguments of `liftAccountBan`. -/
structure Lift where
  actorUserId : String
  targetUserId : String
  expectedAccountRevision : Nat
  at' : Timestamp

/-- The conditions of its update statement. -/
def Lift.allowed (c : Lift) (T : Tables) : Bool :=
  ((T.users.get c.targetUserId).any fun u => u.status = .banned && u.deletedAt.isNone &&
    u.accountRevision = c.expectedAccountRevision) && T.activeAdmin c.actorUserId

/-- What the lift sets in a digest. -/
def Lift.lifted (c : Lift) (d : BanDigest) : BanDigest :=
  { d with liftedAt := some c.at', liftedByUserId := some c.actorUserId }

theorem Lift.lifted_key (c : Lift) (d : BanDigest) : Row.key (c.lifted d) = Row.key d := rfl

/-- The first statement. -/
def Lift.update (c : Lift) (T : Tables) : Option Tables :=
  if c.allowed T then T.updateUser c.targetUserId { status := some .disabled, updatedAt := c.at' }
  else some T

/-- The batch of a lift: the account becomes disabled, and its digests no longer hold. -/
def Lift.statements (c : Lift) (T : Tables) : Option Tables := do
  let T ← c.update T
  if T.statusSince c.targetUserId .disabled c.at' then
    let T := { T with
      banDigests := T.banDigests.update
        (fun d => d.sourceUserId = c.targetUserId && d.liftedAt.isNone) c.lifted c.lifted_key }
    some (T.log (some c.actorUserId) "user.ban.lift" c.targetUserId .empty)
  else some T

/-- `liftAccountBan(…)`. -/
def liftAccountBan (c : Lift) : Access Unit := do
  requireActiveAdmin c.actorUserId
  batch c.statements

end Stowplan.Governance
