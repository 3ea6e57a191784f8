/-
  File:      Stowplan/Governance/Tables.lean
  Subject:   THE ACCESS TABLES AND THEIR TRIGGERS (migrations/0005, 0006).

  Accounts, identities, sessions, workspaces, memberships, guest links, custody and bans. The
  triggers guard the last administrator, the last active owner and the capacity of a custodian,
  and count every change of access in two revisions: one of the account, one of the workspace.

  * `updateUser`, `insertMember`, `setMemberRole`, …: one row each, with the triggers it fires;
  * `custodianRefused`, `finalOwner`, `lastAdmin`: the guards.
-/
import Stowplan.Domain.Access
import Stowplan.Lib.Table
import Mathlib.Data.List.Sort

namespace Stowplan.Governance

/-! ## 1. Rows -/

/-- Times are the texts of `toISOString`, compared as texts. -/
abbrev Timestamp := String

/-- `users.global_role`. -/
inductive GlobalRole where
  | admin | user
  deriving DecidableEq

/-- `users.status`. -/
inductive AccountStatus where
  | active | banned | disabled
  deriving DecidableEq

/-- A row of `users`. -/
structure User where
  userId : String
  email : String
  displayName : String
  globalRole : GlobalRole
  status : AccountStatus
  accountRevision : Nat
  membershipRevision : Nat
  updatedAt : Timestamp
  deletedAt : Option Timestamp

/-- A row of `identities`: one sign-in of an account. -/
structure Identity where
  userId : String
  provider : String
  providerSubject : String
  email : String

/-- A row of `sessions`. -/
structure Session where
  sessionId : String
  userId : String
  createdAt : Timestamp
  expiresAt : Timestamp
  revokedAt : Option Timestamp
  reauthenticatedAt : Option Timestamp

/-- A row of `workspace_snapshots`; `name` is the name in its state. -/
structure Snapshot where
  workspaceId : String
  revision : Nat
  accessRevision : Nat
  name : String
  stateJson : String
  storedBytes : Nat

/-- A row of `workspace_members`. -/
structure Member where
  workspaceId : String
  userId : String
  role : WorkspaceRole
  createdAt : Timestamp

/-- `guest_links.role`: an invitation never makes an owner. -/
inductive GuestRole where
  | editor | viewer
  deriving DecidableEq

/-- The role a guest gets as a member. -/
def GuestRole.toRole : GuestRole → WorkspaceRole
  | .editor => .editor
  | .viewer => .viewer

/-- A row of `guest_links`. -/
structure GuestLink where
  guestLinkId : String
  workspaceId : String
  createdByUserId : String
  tokenHash : String
  role : GuestRole
  createdAt : Timestamp
  expiresAt : Timestamp
  consumedAt : Option Timestamp
  revokedAt : Option Timestamp
  redemptionId : Option String

/-- A row of `workspace_deletions`, the tombstone of a workspace. -/
structure Deletion where
  workspaceId : String
  deletionId : String
  deletedAt : Timestamp
  deletedByUserId : String
  finalSnapshotRevision : Nat
  finalAccessRevision : Nat

/-- A row of `workspace_custody`: the account a workspace counts against. -/
structure Custody where
  workspaceId : String
  custodianUserId : String

/-- A row of `ban_identity_digests`: an identity kept out after a ban. -/
structure BanDigest where
  identityDigest : String
  sourceUserId : String
  reason : String
  createdAt : Timestamp
  createdByUserId : String
  liftedAt : Option Timestamp
  liftedByUserId : Option String

instance : Row User String := ⟨User.userId⟩
instance : Row Identity (String × String) := ⟨fun i => (i.provider, i.providerSubject)⟩
instance : Row Session String := ⟨Session.sessionId⟩
instance : Row Snapshot String := ⟨Snapshot.workspaceId⟩
instance : Row Member (String × String) := ⟨fun m => (m.workspaceId, m.userId)⟩
instance : Row GuestLink String := ⟨GuestLink.guestLinkId⟩
instance : Row Deletion String := ⟨Deletion.workspaceId⟩
instance : Row Custody String := ⟨Custody.workspaceId⟩
instance : Row BanDigest String := ⟨BanDigest.identityDigest⟩

/-- The detail of an audit event, as far as the operations write one. -/
inductive AuditDetail where
  | memberRole (fromRole toRole : WorkspaceRole) (targetUserId workspaceId : String)
  | memberRemove (role : WorkspaceRole) (targetUserId workspaceId : String)
  | memberLeave (role : WorkspaceRole) (userId workspaceId : String)
  | ownershipTransfer (actorRole targetRole : WorkspaceRole) (targetUserId workspaceId : String)
  | custody (role : WorkspaceRole) (source workspaceId : String)
  | guestCreate (role : GuestRole) (expiresAt : Timestamp) (workspaceId : String)
  | guestRevoke (role : GuestRole) (workspaceId : String)
  | guestDelete (priorStatus : String) (link : GuestLink)
  | inviteAccept (role : GuestRole) (guestLinkId workspaceId : String)
  | workspaceDelete (deletionId : String) (finalSnapshotRevision : Nat)
      (source : Option String) (workspaceId : String)
  | claim (role : WorkspaceRole)
  | globalRole (value : GlobalRole)
  | status (value : AccountStatus)
  | workspaceRole (value : WorkspaceRole)
  | empty

/-- The guest link that was accepted, in `member.invite.accept`. -/
def AuditDetail.acceptedLink : AuditDetail → Option String
  | .inviteAccept _ guestLinkId _ => some guestLinkId
  | _ => none

/-- A row of `audit_events`. -/
structure AuditEvent where
  actorUserId : Option String
  action : String
  targetId : String
  detail : AuditDetail

/-- What the circuit breakers, the adjustable limits and the creation ledger allow for now. -/
structure Allowance where
  newAccount : Bool
  newWorkspace : String → Bool
  guestLink : String → Bool
  redemption : Bool
  session : String → Bool
  snapshotGrowth : Bool

/-- The tables the operations on accounts and memberships read and write. -/
structure Tables where
  users : Table User
  identities : Table Identity
  sessions : Table Session
  snapshots : Table Snapshot
  members : Table Member
  guestLinks : Table GuestLink
  deletions : Table Deletion
  custody : Table Custody
  banDigests : Table BanDigest
  audit : List AuditEvent
  allowance : Allowance

/-! ## 2. Queries -/

/-- `API_QUOTAS`, `PUBLIC_LAUNCH_LIMITS`. -/
def ownedWorkspacesPerUser : Nat := 5
def membersPerWorkspace : Nat := 25
def retainedGuestLinksPerWorkspace : Nat := 100
def activeGuestLinksPerWorkspace : Nat := 10
def aggregateSnapshotBytesPerAccount : Nat := 8000000
def membershipsPerAccount : Nat := 25
def linkedIdentitiesPerAccount : Nat := 5

/-- `MAXIMUM_SAFE_REVISION`. -/
def maximumSafeRevision : Nat := 9007199254740991

/-- `COLLATE NOCASE`. -/
def sameEmail (a b : String) : Bool := a.map Char.toLower == b.map Char.toLower

/-- `status = 'active'`. -/
def User.isActive (u : User) : Bool := u.status = .active

/-- `status = 'active' AND deleted_at IS NULL`. -/
def User.isLive (u : User) : Bool := u.isActive && u.deletedAt.isNone

/-- A live account with the role of an administrator. -/
def User.isActiveAdmin (u : User) : Bool := u.isLive && u.globalRole = .admin

namespace Tables

variable (T : Tables)

/-- The account is there, with the status active. -/
def active (userId : String) : Bool := (T.users.get userId).any User.isActive

/-- The account is active and not deleted. -/
def live (userId : String) : Bool := (T.users.get userId).any User.isLive

/-- The account is a live administrator. -/
def activeAdmin (userId : String) : Bool := (T.users.get userId).any User.isActiveAdmin

/-- The status of an account. -/
def status (userId : String) : Option AccountStatus := (T.users.get userId).map (·.status)

/-- The role of an account in a workspace. -/
def role (workspaceId userId : String) : Option WorkspaceRole :=
  (T.members.get (workspaceId, userId)).map (·.role)

/-- `users.membership_revision`. -/
def membershipRevision (userId : String) : Option Nat :=
  (T.users.get userId).map (·.membershipRevision)

/-- `workspace_snapshots.access_revision`. -/
def accessRevision (workspaceId : String) : Option Nat :=
  (T.snapshots.get workspaceId).map (·.accessRevision)

/-- The workspace has a tombstone. -/
def isDeleted (workspaceId : String) : Bool := (T.deletions.get workspaceId).isSome

/-- The account a workspace counts against. -/
def custodian (workspaceId : String) : Option String :=
  (T.custody.get workspaceId).map (·.custodianUserId)

/-- The active owners of a workspace, counted. -/
def ownerCount (workspaceId : String) : Nat :=
  T.members.count fun m => m.workspaceId = workspaceId && m.role = .owner && T.active m.userId

/-- The workspaces an account owns, counted. -/
def ownedCount (userId : String) : Nat :=
  T.members.count fun m => m.userId = userId && m.role = .owner

/-- The members of a workspace. -/
def memberCount (workspaceId : String) : Nat :=
  T.members.count fun m => m.workspaceId = workspaceId

/-- The memberships of an account. -/
def membershipCount (userId : String) : Nat := T.members.count fun m => m.userId = userId

/-- The workspaces in an account's custody, other than the given one, and their bytes. -/
def custodyCount (userId : String) (except : Option String) : Nat :=
  T.custody.count fun c => c.custodianUserId = userId && some c.workspaceId != except

/-- The bytes of a stored workspace, none where there is no row. -/
def storedBytes (workspaceId : String) : Nat :=
  ((T.snapshots.get workspaceId).map (·.storedBytes)).getD 0

/-- The bytes of the workspaces in an account's custody, other than the given one. -/
def custodyBytes (userId : String) (except : Option String) : Nat :=
  ((T.custody.rows.filter fun c =>
    c.custodianUserId = userId && some c.workspaceId != except).map fun c =>
      T.storedBytes c.workspaceId).sum

/-- An active owner of the workspace other than the given account. -/
def otherOwner (workspaceId userId : String) : Bool :=
  T.members.any fun other => other.workspaceId = workspaceId && other.userId != userId &&
    other.role = .owner && T.live other.userId

/-! ## 3. Guards -/

/-- `users_last_admin_role_guard` and `users_last_admin_status_guard`. -/
def lastAdmin (old new : User) : Bool :=
  old.isActiveAdmin && !new.isActiveAdmin && decide (T.users.count User.isActiveAdmin ≤ 1)

/-- `users_final_owner_status_guard`. -/
def finalOwner (old new : User) : Bool :=
  old.isLive && !new.isLive && T.members.any fun owned =>
    owned.userId = old.userId && owned.role = .owner && !T.isDeleted owned.workspaceId &&
      !T.otherOwner owned.workspaceId old.userId

/-- What `workspace_custody_insert_guard` and `workspace_custody_transfer_guard` both ask of the
    custodian of a workspace. -/
def custodianRefused (workspaceId userId : String) : Bool :=
  !T.live userId ||
    decide (ownedWorkspacesPerUser ≤ T.custodyCount userId (some workspaceId)) ||
    decide (aggregateSnapshotBytesPerAccount <
      T.custodyBytes userId (some workspaceId) + T.storedBytes workspaceId)

/-- `workspace_members_account_quota_guard`. -/
def membershipRefused (workspaceId userId : String) : Bool :=
  !T.live userId || ((T.members.get (workspaceId, userId)).isNone &&
    decide (membershipsPerAccount ≤ T.membershipCount userId))

end Tables

/-! ## 4. Revisions -/

/-- `membership_revision = membership_revision + 1`. -/
def User.bumpMembership (u : User) : User :=
  { u with membershipRevision := u.membershipRevision + 1 }

/-- `account_revision = account_revision + 1`. -/
def User.bumpAccount (u : User) : User := { u with accountRevision := u.accountRevision + 1 }

/-- `access_revision = access_revision + 1`. -/
def Snapshot.bumpAccess (s : Snapshot) : Snapshot :=
  { s with accessRevision := s.accessRevision + 1 }

/-- An update keeps the key of its row; so do all that follow. -/
theorem User.bumpMembership_key (u : User) : Row.key u.bumpMembership = Row.key u := rfl

theorem User.bumpAccount_key (u : User) : Row.key u.bumpAccount = Row.key u := rfl

theorem Snapshot.bumpAccess_key (s : Snapshot) : Row.key s.bumpAccess = Row.key s := rfl

namespace Tables

variable (T : Tables)

/-- `membership_revision + 1`; a revision that cannot grow aborts the statement. -/
def bumpMembership (userId : String) : Option Tables :=
  if T.users.any fun u => u.userId = userId && decide (maximumSafeRevision ≤ u.membershipRevision)
  then none
  else some { T with
    users := T.users.update (·.userId = userId) User.bumpMembership User.bumpMembership_key }

/-- The trigger that advances `account_revision`, which aborts at the largest safe revision. -/
def bumpAccount (userId : String) : Option Tables :=
  if T.users.any fun u => u.userId = userId && decide (maximumSafeRevision ≤ u.accountRevision)
  then none
  else some { T with
    users := T.users.update (·.userId = userId) User.bumpAccount User.bumpAccount_key }

/-- The trigger that advances the access revision of the workspaces it concerns. -/
def bumpAccess (p : String → Bool) : Option Tables :=
  if T.snapshots.any fun s => p s.workspaceId && decide (maximumSafeRevision ≤ s.accessRevision)
  then none
  else some { T with
    snapshots := T.snapshots.update (fun s => p s.workspaceId) Snapshot.bumpAccess
      Snapshot.bumpAccess_key }

/-- A membership was inserted, changed or deleted. -/
def bumpMember (workspaceId userId : String) : Option Tables := do
  let T ← T.bumpMembership userId
  T.bumpAccess (· = workspaceId)

/-! ## 5. Statements on one row, with their triggers -/

end Tables

/-- The `SET` clause of an update of an account. -/
structure UserChange where
  email : Option String := none
  displayName : Option String := none
  globalRole : Option GlobalRole := none
  status : Option AccountStatus := none
  updatedAt : Timestamp
  deletedAt : Option Timestamp := none

/-- The columns an update sets, over the row as it was. -/
def UserChange.apply (c : UserChange) (u : User) : User :=
  { u with
    email := c.email.getD u.email
    displayName := c.displayName.getD u.displayName
    globalRole := c.globalRole.getD u.globalRole
    status := c.status.getD u.status
    updatedAt := c.updatedAt
    deletedAt := c.deletedAt.or u.deletedAt }

theorem UserChange.apply_key (c : UserChange) (u : User) : Row.key (c.apply u) = Row.key u := rfl

/-- `SET role = ?`. -/
def Member.withRole (role : WorkspaceRole) (m : Member) : Member := { m with role }

theorem Member.withRole_key (role : WorkspaceRole) (m : Member) :
    Row.key (m.withRole role) = Row.key m := rfl

/-- `SET custodian_user_id = ?`. -/
def Custody.withCustodian (userId : String) (c : Custody) : Custody :=
  { c with custodianUserId := userId }

theorem Custody.withCustodian_key (userId : String) (c : Custody) :
    Row.key (c.withCustodian userId) = Row.key c := rfl

/-- `SET consumed_at = ?, redemption_id = ?`. -/
def GuestLink.consumed (consumedAt : Timestamp) (redemptionId : String) (l : GuestLink) :
    GuestLink :=
  { l with consumedAt := some consumedAt, redemptionId := some redemptionId }

theorem GuestLink.consumed_key (consumedAt : Timestamp) (redemptionId : String)
    (l : GuestLink) : Row.key (l.consumed consumedAt redemptionId) = Row.key l := rfl

/-- `SET revoked_at = ?` of a session. -/
def Session.revoked (revokedAt : Timestamp) (s : Session) : Session :=
  { s with revokedAt := some revokedAt }

theorem Session.revoked_key (revokedAt : Timestamp) (s : Session) :
    Row.key (s.revoked revokedAt) = Row.key s := rfl

/-- `SET final_access_revision = ?`. -/
def Deletion.closed (finalAccessRevision : Nat) (d : Deletion) : Deletion :=
  { d with finalAccessRevision }

theorem Deletion.closed_key (finalAccessRevision : Nat) (d : Deletion) :
    Row.key (d.closed finalAccessRevision) = Row.key d := rfl

/-- `length(CAST(state_json AS BLOB))`. -/
def Snapshot.measured (s : Snapshot) : Snapshot :=
  { s with storedBytes := s.stateJson.utf8ByteSize }

/-- A new state of a workspace; its access is not touched. -/
structure ContentWrite where
  workspaceId : String
  revision : Nat
  name : String
  stateJson : String

/-- A content write on its row, with the size measured again. -/
def ContentWrite.apply (c : ContentWrite) (s : Snapshot) : Snapshot :=
  Snapshot.measured { s with revision := c.revision, name := c.name, stateJson := c.stateJson }

theorem ContentWrite.apply_key (c : ContentWrite) (s : Snapshot) : Row.key (c.apply s) = Row.key s :=
  rfl

/-- `SET revoked_at = ?` of a guest link. -/
def GuestLink.revoked (revokedAt : Timestamp) (l : GuestLink) : GuestLink :=
  { l with revokedAt := some revokedAt }

theorem GuestLink.revoked_key (revokedAt : Timestamp) (l : GuestLink) :
    Row.key (l.revoked revokedAt) = Row.key l := rfl

/-- `users_account_revision_updates` fires. -/
def accountChanged (old new : User) : Bool :=
  old.email != new.email || old.displayName != new.displayName ||
    old.globalRole != new.globalRole || old.status != new.status || old.deletedAt != new.deletedAt

namespace Tables

variable (T : Tables)

/-- `users_account_revision_updates`. -/
def countAccount (userId : String) (changed : Bool) : Option Tables :=
  if changed then T.bumpAccount userId else some T

/-- `users_status_revisions`. -/
def countStatus (userId : String) (changed : Bool) : Option Tables :=
  if changed then do
    let T ← T.bumpMembership userId
    T.bumpAccess fun workspaceId => (T.members.get (workspaceId, userId)).isSome
  else some T

/-- `UPDATE users SET … WHERE user_id = ?`. -/
def updateUser (userId : String) (c : UserChange) : Option Tables :=
  match T.users.get userId with
  | none => some T
  | some old =>
    let new := c.apply old
    if T.lastAdmin old new || T.finalOwner old new ||
        T.users.any fun u => u.userId != userId && sameEmail u.email new.email then none
    else do
      let T ← countAccount { T with
        users := T.users.update (·.userId = userId) c.apply c.apply_key } userId
          (accountChanged old new)
      T.countStatus userId (old.status != new.status)

/-- `INSERT INTO users`. -/
def insertUser (u : User) : Option Tables :=
  if !T.allowance.newAccount || T.users.any fun v => sameEmail v.email u.email then none
  else do return { T with users := ← T.users.insert u }

/-- `INSERT INTO identities`. -/
def insertIdentity (i : Identity) : Option Tables :=
  if (T.users.get i.userId).isNone then none
  else do
    let T := { T with identities := ← T.identities.insert i }
    T.bumpAccount i.userId

/-- `DELETE FROM identities WHERE provider = ? AND provider_subject = ?`. -/
def deleteIdentity (i : Identity) : Option Tables :=
  Tables.bumpAccount { T with
    identities := T.identities.delete fun j => Row.key j = Row.key i } i.userId

/-- `INSERT INTO workspace_custody`. -/
def insertCustody (workspaceId userId : String) : Option Tables :=
  if !T.allowance.newWorkspace userId || T.custodianRefused workspaceId userId ||
      (T.snapshots.get workspaceId).isNone then none
  else do return { T with custody := ← T.custody.insert ⟨workspaceId, userId⟩ }

/-- `UPDATE workspace_custody SET custodian_user_id = ? WHERE workspace_id = ?`. -/
def setCustodian (workspaceId userId : String) : Option Tables :=
  match T.custodian workspaceId with
  | some old =>
    if old != userId && T.custodianRefused workspaceId userId then none
    else some { T with
      custody := T.custody.update (·.workspaceId = workspaceId) (·.withCustodian userId)
        (Custody.withCustodian_key userId) }
  | none => some T

/-- `INSERT INTO workspace_members`. -/
def insertMember (m : Member) : Option Tables :=
  if T.membershipRefused m.workspaceId m.userId || (T.snapshots.get m.workspaceId).isNone then none
  else do
    let T := { T with members := ← T.members.insert m }
    let T ← T.bumpMember m.workspaceId m.userId
    if m.role = .owner && (T.custody.get m.workspaceId).isNone then
      T.insertCustody m.workspaceId m.userId
    else some T

/-- `UPDATE workspace_members SET role = ? WHERE workspace_id = ? AND user_id = ?`. -/
def setMemberRole (workspaceId userId : String) (role : WorkspaceRole) : Option Tables :=
  if T.role workspaceId userId = none || T.role workspaceId userId = some role then some T
  else Tables.bumpMember { T with
    members := T.members.update (fun m => m.workspaceId = workspaceId && m.userId = userId)
      (·.withRole role) (Member.withRole_key role) } workspaceId userId

/-- `DELETE FROM workspace_members WHERE workspace_id = ? AND user_id = ?`. -/
def deleteMember (workspaceId userId : String) : Option Tables :=
  if T.role workspaceId userId = none then some T
  else Tables.bumpMember { T with
    members := T.members.delete fun m => m.workspaceId = workspaceId && m.userId = userId }
      workspaceId userId

/-- `INSERT INTO guest_links`. -/
def insertGuestLink (link : GuestLink) : Option Tables :=
  if !T.allowance.guestLink link.createdByUserId || !T.live link.createdByUserId ||
      (T.snapshots.get link.workspaceId).isNone ||
      T.guestLinks.any fun l => l.tokenHash = link.tokenHash then none
  else do
    let T := { T with guestLinks := ← T.guestLinks.insert link }
    T.bumpAccess (· = link.workspaceId)

/-- `UPDATE guest_links SET consumed_at = ?, redemption_id = ? WHERE guest_link_id = ?`. -/
def consumeLink (guestLinkId : String) (consumedAt : Timestamp) (redemptionId : String) :
    Option Tables :=
  match T.guestLinks.get guestLinkId with
  | some link =>
    if !T.allowance.redemption ||
        T.guestLinks.any fun l => l.redemptionId = some redemptionId then none
    else Tables.bumpAccess { T with
      guestLinks := T.guestLinks.update (·.guestLinkId = guestLinkId)
        (·.consumed consumedAt redemptionId) (GuestLink.consumed_key consumedAt redemptionId) }
        (· = link.workspaceId)
  | none => some T

/-- `UPDATE guest_links SET revoked_at = ? WHERE guest_link_id = ?`. -/
def revokeLink (guestLinkId : String) (revokedAt : Timestamp) : Option Tables :=
  match T.guestLinks.get guestLinkId with
  | some link => Tables.bumpAccess { T with
      guestLinks := T.guestLinks.update (·.guestLinkId = guestLinkId)
        (·.revoked revokedAt) (GuestLink.revoked_key revokedAt) } (· = link.workspaceId)
  | none => some T

/-- `DELETE FROM guest_links WHERE guest_link_id = ?`. -/
def deleteLink (guestLinkId : String) : Option Tables :=
  match T.guestLinks.get guestLinkId with
  | some link => Tables.bumpAccess { T with
      guestLinks := T.guestLinks.delete (·.guestLinkId = guestLinkId) } (· = link.workspaceId)
  | none => some T

/-- A statement that runs over rows, in their order. -/
def forRows {ρ : Type} (rows : List ρ) (statement : Tables → ρ → Option Tables) :
    Option Tables :=
  rows.foldlM statement T

/-- `DELETE FROM identities WHERE user_id = ?`. -/
def deleteIdentities (userId : String) : Option Tables :=
  T.forRows (T.identities.rows.filter (·.userId = userId)) deleteIdentity

/-- The guest links that expired first, `AUTH_CLEANUP_BATCH_SIZE` of them at most. -/
def expiredLinks (cutoff : Timestamp) : List GuestLink :=
  ((T.guestLinks.rows.filter fun l => decide (l.expiresAt ≤ cutoff)).insertionSort
    fun a b => a.expiresAt ≤ b.expiresAt).take 64

/-- `INSERT INTO workspace_snapshots`. -/
def insertSnapshot (snapshot : Snapshot) : Option Tables :=
  return { T with snapshots := ← T.snapshots.insert snapshot.measured }

/-- `workspace_snapshots_account_storage_guard`: the account that has the workspace in its
    custody would exceed its storage. -/
def storageRefused (workspaceId : String) (oldBytes newBytes : Nat) : Bool :=
  match T.custodian workspaceId with
  | some userId =>
    decide (aggregateSnapshotBytesPerAccount < T.custodyBytes userId none - oldBytes + newBytes)
  | none => false

/-- `UPDATE workspace_snapshots SET state_json = ?, … WHERE workspace_id = ?`. Only growth is
    guarded. -/
def updateState (c : ContentWrite) : Option Tables :=
  match T.snapshots.get c.workspaceId with
  | some old =>
    let bytes := c.stateJson.utf8ByteSize
    if decide (old.storedBytes < bytes) &&
        (!T.allowance.snapshotGrowth || T.storageRefused c.workspaceId old.storedBytes bytes) then
      none
    else some { T with
      snapshots := T.snapshots.update (·.workspaceId = c.workspaceId) c.apply c.apply_key }
  | none => some T

/-- `INSERT INTO workspace_deletions`. -/
def insertDeletion (deletion : Deletion) : Option Tables :=
  return { T with deletions := ← T.deletions.insert deletion }

/-- The last access revision of a workspace that is deleted, after its members are gone. -/
def closeDeletion (workspaceId : String) : Tables :=
  match T.snapshots.get workspaceId with
  | some snapshot =>
    if snapshot.accessRevision < maximumSafeRevision then
      { T with
        deletions := T.deletions.update (·.workspaceId = workspaceId)
          (·.closed (snapshot.accessRevision + 1)) (Deletion.closed_key _) }
    else T
  | none => T

/-- `DELETE FROM workspace_snapshots WHERE workspace_id = ?`. The custody goes with it; its
    members and guest links are gone. -/
def deleteSnapshot (workspaceId : String) : Tables :=
  { T with
    snapshots := T.snapshots.delete (·.workspaceId = workspaceId)
    custody := T.custody.delete (·.workspaceId = workspaceId) }

/-- `UPDATE sessions SET revoked_at = ?` of the sessions that are still open. -/
def revokeSessions (revokedAt : Timestamp) (p : String → Bool) : Tables :=
  { T with
    sessions := T.sessions.update
      (fun s => s.revokedAt.isNone && decide (revokedAt < s.expiresAt) && p s.userId)
      (·.revoked revokedAt) (Session.revoked_key revokedAt) }

/-- `sessions_public_issuance_ledger`: of the other open sessions of the account, all but the
    seven created last are revoked. -/
def replaceSessions (session : Session) : Tables :=
  let others := (T.sessions.rows.filter fun s => s.userId = session.userId &&
    s.sessionId != session.sessionId && s.revokedAt.isNone &&
      decide (session.createdAt < s.expiresAt)).reverse.insertionSort
        fun a b => b.createdAt ≤ a.createdAt
  let replaced := (others.drop 7).map (·.sessionId)
  { T with
    sessions := T.sessions.update (fun s => replaced.contains s.sessionId)
      (·.revoked session.createdAt) (Session.revoked_key session.createdAt) }

/-- `INSERT INTO sessions`. -/
def insertSession (session : Session) : Option Tables :=
  if !T.live session.userId || !T.allowance.session session.userId then none
  else do
    let T := { T with sessions := ← T.sessions.insert session }
    return T.replaceSessions session

/-- The unused guest links that an account created are revoked. -/
def revokeLinks (userId : String) (revokedAt : Timestamp) : Option Tables :=
  T.forRows (T.guestLinks.rows.filter fun l => l.createdByUserId = userId && l.revokedAt.isNone &&
    l.consumedAt.isNone && decide (revokedAt < l.expiresAt))
      fun T l => T.revokeLink l.guestLinkId revokedAt

/-- A row of `auth_audit_events`. -/
def log (actorUserId : Option String) (action targetId : String) (detail : AuditDetail) :
    Tables :=
  { T with audit := T.audit ++ [⟨actorUserId, action, targetId, detail⟩] }

end Tables

end Stowplan.Governance
