/-
  File:      Stowplan/Governance/Workspaces.lean
  Subject:   WORKSPACES COME AND GO (workspace-initialization.ts, workspace-access.ts,
             admin-workspace.ts).

  * `initializeOwnedWorkspace`: a new workspace, its custody and its first owner;
  * `takeAdminWorkspaceOwnership`: a global administrator makes itself an owner;
  * `deleteServerWorkspace`, `deleteAdminWorkspace`: one `purge`, under two authorities.
-/
import Stowplan.Governance.Membership

namespace Stowplan.Governance

open Tables Program

/-! ## 1. Creation -/

/-- The arguments of `initializeOwnedWorkspace`. -/
structure Initialization where
  workspaceId : String
  userId : String
  revision : Nat
  name : String
  stateJson : String
  at' : Timestamp

/-- `workspaceAllocationRefusal`. -/
def workspaceAllocationRefusal (userId : String) (snapshotBytes : Nat) : Access Unit := do
  let (live, workspaces, bytes, allowance) ← read fun T =>
    (T.live userId, T.custodyCount userId none, T.custodyBytes userId none, T.allowance)
  require live "AUTHENTICATION_REQUIRED"
  require (workspaces < ownedWorkspacesPerUser) "QUOTA_EXCEEDED"
  require (bytes + snapshotBytes ≤ aggregateSnapshotBytesPerAccount) "QUOTA_EXCEEDED"
  require (allowance.newWorkspace userId) "QUOTA_EXCEEDED"

/-- The conditions of the insert statement. -/
def Initialization.allowed (c : Initialization) (T : Tables) : Bool :=
  T.active c.userId && (T.snapshots.get c.workspaceId).isNone && !T.isDeleted c.workspaceId &&
    decide (T.custodyCount c.userId none < ownedWorkspacesPerUser)

/-- Each statement but the first is executed if the one before it changed a row. -/
def Initialization.statements (c : Initialization) (T : Tables) : Option Tables :=
  if c.allowed T then do
    let T ← T.insertSnapshot ⟨c.workspaceId, c.revision, 0, c.name, c.stateJson, 0⟩
    let T ← T.insertCustody c.workspaceId c.userId
    let T ← T.insertMember ⟨c.workspaceId, c.userId, .owner, c.at'⟩
    return T.log (some c.userId) "workspace.claim" c.workspaceId (.claim .owner)
  else some T

/-- `initializeOwnedWorkspace(…)`: a new workspace with its owner and custodian. -/
def initializeOwnedWorkspace (c : Initialization) : Access Unit := do
  workspaceAllocationRefusal c.userId c.stateJson.utf8ByteSize
  membershipAdmissionRefusal c.userId
  batch c.statements

/-! ## 2. Takeover -/

/-- The arguments of `takeAdminWorkspaceOwnership`. -/
structure Takeover where
  workspaceId : String
  actorUserId : String
  at' : Timestamp
  expectedAccessRevision : Nat

/-- `status = 'active' AND global_role = 'admin'`: the marks of deletion are not looked at. -/
def Tables.operator (T : Tables) (userId : String) : Bool :=
  (T.users.get userId).any fun u => u.isActive && u.globalRole = .admin

/-- What an administrator reads of a workspace that is not deleted. -/
def Tables.adminContextRow (T : Tables) (actorUserId workspaceId : String) : Option Snapshot :=
  if T.operator actorUserId && !T.isDeleted workspaceId then T.snapshots.get workspaceId else none

/-- `explainMissingWorkspace(…)`: why an administrator finds none. -/
def explainMissingWorkspace {α : Type} (actorUserId workspaceId : String) : Access α := do
  let operator ← read (·.operator actorUserId)
  require operator "ADMIN_REQUIRED"
  if ← read (·.isDeleted workspaceId) then .fail "WORKSPACE_DELETED"
  else .fail "NOT_FOUND_OR_INACCESSIBLE"

/-- `adminWorkspaceContext(…)`. -/
def adminWorkspaceContext (actorUserId workspaceId : String) : Access Snapshot := do
  match ← read (·.adminContextRow actorUserId workspaceId) with
  | some context => return context
  | none => explainMissingWorkspace actorUserId workspaceId

/-- The conditions of its statements. -/
def Takeover.allowed (c : Takeover) (T : Tables) : Bool :=
  T.operator c.actorUserId &&
    T.accessRevision c.workspaceId = some c.expectedAccessRevision &&
    decide (c.expectedAccessRevision < maximumSafeRevision) &&
    !T.isDeleted c.workspaceId &&
    ((T.role c.workspaceId c.actorUserId).isSome ||
      decide (T.memberCount c.workspaceId < membersPerWorkspace)) &&
    decide (T.ownedCount c.actorUserId < ownedWorkspacesPerUser)

/-- `INSERT … ON CONFLICT(workspace_id,user_id) DO UPDATE SET role='owner' WHERE role<>'owner'`.
    The guard of an insertion is asked before the conflict is found. -/
def Tables.upsertOwner (T : Tables) (workspaceId userId : String) (createdAt : Timestamp) :
    Option Tables :=
  if (T.role workspaceId userId).isNone then
    T.insertMember ⟨workspaceId, userId, .owner, createdAt⟩
  else if T.membershipRefused workspaceId userId then none
  else T.setMemberRole workspaceId userId .owner

/-- The batch: the administrator becomes an owner, with an event where it was none. -/
def Takeover.statements (c : Takeover) (T : Tables) : Option Tables :=
  if c.allowed T then do
    let S ← T.upsertOwner c.workspaceId c.actorUserId c.at'
    if T.role c.workspaceId c.actorUserId = some .owner then some S
    else some (S.log (some c.actorUserId) "workspace.custody" c.workspaceId
      (.custody .owner "global-admin" c.workspaceId))
  else some T

/-- A new member has to be admitted. -/
def admitUnlessMember (member : Bool) (userId : String) : Access Unit :=
  if member then return () else membershipAdmissionRefusal userId

/-- `takeAdminWorkspaceOwnership(…)`. -/
def takeAdminWorkspaceOwnership (c : Takeover) : Access Unit := do
  let context ← adminWorkspaceContext c.actorUserId c.workspaceId
  require (context.accessRevision = c.expectedAccessRevision) "ACCESS_STALE"
  require (context.accessRevision < maximumSafeRevision) "WORKSPACE_BUSY"
  let member ← read fun T => (T.role c.workspaceId c.actorUserId).isSome
  admitUnlessMember member c.actorUserId
  batch c.statements

/-! ## 3. Deletion -/

/-- The arguments of both deletions of a workspace. -/
structure WorkspaceDeletion where
  workspaceId : String
  actorUserId : String
  deletionId : String
  at' : Timestamp
  confirmationName : String
  expectedRevision : Nat
  expectedAccessRevision : Nat

/-- What both deletions ask of the snapshot. -/
def WorkspaceDeletion.confirmed (c : WorkspaceDeletion) (T : Tables) : Bool :=
  (T.snapshots.get c.workspaceId).any fun s => s.revision = c.expectedRevision &&
    s.accessRevision = c.expectedAccessRevision && s.name = c.confirmationName &&
    decide (s.accessRevision < maximumSafeRevision)

/-- The deletion is the one that has this identifier. -/
def Tables.deletedBy (T : Tables) (workspaceId deletionId : String) : Bool :=
  (T.deletions.get workspaceId).any (·.deletionId = deletionId)

/-- Members who can sign in as a guest only, and are members of nothing else. -/
def Tables.guestOnly (T : Tables) (workspaceId userId : String) : Bool :=
  (T.role workspaceId userId).isSome &&
    (T.identities.any fun i => i.userId = userId && i.provider = "guest") &&
    !(T.identities.any fun i => i.userId = userId && i.provider != "guest") &&
    !(T.members.any fun m => m.userId = userId && m.workspaceId != workspaceId)

/-- All statements after the first: the workspace goes, with all that belongs to it. -/
def WorkspaceDeletion.purge (c : WorkspaceDeletion) (T : Tables) : Option Tables :=
  if T.deletedBy c.workspaceId c.deletionId then do
    let T := T.revokeSessions c.at' (T.guestOnly c.workspaceId)
    let T ← T.forRows (T.guestLinks.rows.filter (·.workspaceId = c.workspaceId))
      fun T l => T.deleteLink l.guestLinkId
    let T ← T.forRows (T.members.rows.filter (·.workspaceId = c.workspaceId))
      fun T m => T.deleteMember m.workspaceId m.userId
    let T := T.closeDeletion c.workspaceId
    if (T.snapshots.get c.workspaceId).any (·.revision = c.expectedRevision) then
      return T.deleteSnapshot c.workspaceId
    else return T
  else some T

/-- The first statement, where it finds its authority, and the event. -/
def WorkspaceDeletion.record (c : WorkspaceDeletion) (allowed : Tables → Bool)
    (detail : AuditDetail) (T : Tables) : Option Tables :=
  if allowed T && c.confirmed T && !T.isDeleted c.workspaceId then do
    let T ← T.insertDeletion ⟨c.workspaceId, c.deletionId, c.at', c.actorUserId,
      c.expectedRevision, c.expectedAccessRevision + 1⟩
    return T.log (some c.actorUserId) "workspace.delete" c.workspaceId detail
  else some T

/-- The batch: the tombstone, then the rows of the workspace where the tombstone was written. -/
def WorkspaceDeletion.statements (c : WorkspaceDeletion) (allowed : Tables → Bool)
    (detail : AuditDetail) (T : Tables) : Option Tables := do
  let T ← c.record allowed detail T
  c.purge T

/-- The authority of an owner, whose memberships have not changed. -/
def WorkspaceDeletion.byOwner (c : WorkspaceDeletion) (expectedMembershipRevision : Nat)
    (T : Tables) : Bool :=
  T.activeOwner c.workspaceId c.actorUserId &&
    T.membershipRevision c.actorUserId = some expectedMembershipRevision

/-- `deleteServerWorkspace(…)`: an owner deletes a workspace. -/
def deleteServerWorkspace (c : WorkspaceDeletion) (expectedMembershipRevision : Nat) :
    Access Unit := do
  let context ← ownerContext c.workspaceId c.actorUserId
  assertExpectedAccess context c.expectedAccessRevision
  require (context.membershipRevision = expectedMembershipRevision) "ACCESS_STALE"
  require (context.revision = c.expectedRevision ∧ context.name = c.confirmationName)
    "CONFIRMATION_REQUIRED"
  require (context.accessRevision < maximumSafeRevision) "WORKSPACE_BUSY"
  batch (c.statements (c.byOwner expectedMembershipRevision)
    (.workspaceDelete c.deletionId context.revision none c.workspaceId))

/-- `deleteAdminWorkspace(…)`: an administrator deletes it. -/
def deleteAdminWorkspace (c : WorkspaceDeletion) : Access Unit := do
  let context ← adminWorkspaceContext c.actorUserId c.workspaceId
  require (context.accessRevision = c.expectedAccessRevision) "ACCESS_STALE"
  require (context.revision = c.expectedRevision ∧ context.displayName = c.confirmationName)
    "CONFIRMATION_REQUIRED"
  require (context.accessRevision < maximumSafeRevision) "WORKSPACE_BUSY"
  batch (c.statements (·.operator c.actorUserId)
    (.workspaceDelete c.deletionId context.revision (some "global-admin") c.workspaceId))

end Stowplan.Governance
