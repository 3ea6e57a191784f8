/-
  File:      Stowplan/Governance/Membership.lean
  Subject:   MEMBERS AND GUEST LINKS (workspace-access.ts, auth.ts, admin.ts).

  Each operation reads what it decides on, statement by statement, and then writes in one batch
  whose conditions look again. What an operation reads after its batch only explains a refusal.

  * `changeWorkspaceMemberRole`, `removeWorkspaceMember`, `transferWorkspaceOwnership`,
    `leaveWorkspace`: by a member;
  * `adminMemberRole`, `adminMemberRemove`: by a global administrator;
  * `createWorkspaceGuestLink`, `revokeWorkspaceGuestLink`, `consumeGuestLink`.
-/
import Stowplan.Governance.Tables
import Stowplan.Lib.Program

namespace Stowplan.Governance

open Tables Program

/-! ## 1. Programs over the access tables -/

/-- The batches that others are judged by. -/
inductive Label where
  /-- An account is deleted. The workspaces are those that were in its custody when this was
      prepared. -/
  | deletion (userId : String) (prepared : List String)
  /-- A guest link is created. -/
  | invitation (guestLinkId : String)
  /-- A guest link is redeemed, under this new identifier. -/
  | redemption (redemptionId : String)
  /-- An identity is given to an account. -/
  | register (provider providerSubject : String)
  /-- An account is banned. -/
  | ban (userId : String)
  /-- A session is issued to who signed in with an identity. -/
  | session (provider providerSubject userId : String)

/-- A batch that is not treated apart. -/
def Label.ordinary : Label → Bool
  | .deletion _ _ => false
  | .invitation _ => false
  | .redemption _ => false
  | _ => true

/-- An operation of `WorkspaceAccessRepository`: reads of the tables and batches on them, which
    other operations may run between. -/
abbrev Access (α : Type) := Program Tables Label α

/-- The statements of one transaction. -/
def batch (run : Tables → Option Tables) : Access Unit := exec fun T => (run T).map ((), ·)

/-- A batch that says which row it uses up or writes, for the claims about single use. -/
def batchAs (label : Label) (run : Tables → Option Tables) : Access Unit :=
  execAs label fun T => (run T).map ((), ·)

/-! ## 2. What the operations read -/

/-- `WorkspaceContextRow`. -/
structure WorkspaceContext where
  revision : Nat
  accessRevision : Nat
  name : String
  role : WorkspaceRole
  membershipRevision : Nat
  ownerCount : Nat

/-- `MemberRow`. -/
structure MemberRow where
  role : WorkspaceRole
  status : AccountStatus
  membershipRevision : Nat

/-- `COALESCE(NULLIF(name,''),workspace_id)`. -/
def Snapshot.displayName (s : Snapshot) : String := if s.name = "" then s.workspaceId else s.name

namespace Tables

variable (T : Tables)

/-- `WorkspaceContextRow`: the member, its active account and the workspace, of which none may be
    missing or deleted. -/
def contextRow (workspaceId userId : String) : Option WorkspaceContext := do
  let snapshot ← T.snapshots.get workspaceId
  let role ← T.role workspaceId userId
  let user ← T.users.get userId
  if user.isActive && !T.isDeleted workspaceId then
    some ⟨snapshot.revision, snapshot.accessRevision, snapshot.displayName, role,
      user.membershipRevision, T.ownerCount workspaceId⟩
  else none

/-- `currentMember(workspaceId, userId)`: the role, with the status and revision of the account. -/
def currentMember (workspaceId userId : String) : Option MemberRow := do
  let role ← T.role workspaceId userId
  let user ← T.users.get userId
  some ⟨role, user.status, user.membershipRevision⟩

/-- The caller owns the workspace, and its account is active. -/
def activeOwner (workspaceId userId : String) : Bool :=
  T.role workspaceId userId = some .owner && T.active userId

/-- The tombstone of the workspace names the caller as the one who deleted it. -/
def deletedByCaller (workspaceId userId : String) : Bool :=
  (T.deletions.get workspaceId).any (·.deletedByUserId = userId)

/-- The guest links of a workspace that could still be used. -/
def activeLinkCount (workspaceId : String) (at' : Timestamp) : Nat :=
  T.guestLinks.count fun l => l.workspaceId = workspaceId && l.consumedAt.isNone &&
    l.revokedAt.isNone && decide (at' < l.expiresAt)

end Tables

def inaccessible {α : Type} (workspaceId userId : String) : Access α := do
  if ← read (·.deletedByCaller workspaceId userId) then .fail "WORKSPACE_DELETED"
  else .fail "NOT_FOUND_OR_INACCESSIBLE"

/-- `workspaceContext(workspaceId, actorUserId)`: any member may read it. -/
def workspaceContext (workspaceId userId : String) : Access WorkspaceContext := do
  match ← read (·.contextRow workspaceId userId) with
  | some context => return context
  | none => inaccessible workspaceId userId

/-- `ownerContext(workspaceId, actorUserId)`: the same for an owner, every other role refused. -/
def ownerContext (workspaceId userId : String) : Access WorkspaceContext := do
  let context ← workspaceContext workspaceId userId
  require (context.role = .owner) "OWNER_REQUIRED"
  return context

/-- `assertExpectedAccess`: the caller has read the current access revision. -/
def assertExpectedAccess (context : WorkspaceContext) (expectedAccessRevision : Nat) :
    Access Unit :=
  require (context.accessRevision = expectedAccessRevision) "ACCESS_STALE"

/-- `assertOwnerPromotionQuota(userId)`: the target may own one workspace more. -/
def assertOwnerPromotionQuota (userId : String) : Access Unit := do
  let owned ← read (·.ownedCount userId)
  require (owned < ownedWorkspacesPerUser) "QUOTA_EXCEEDED"

/-- `membershipAdmissionRefusal(userId)`: a live account with room for one more membership. -/
def membershipAdmissionRefusal (userId : String) : Access Unit := do
  let (live, memberships) ← read fun T => (T.live userId, T.membershipCount userId)
  require live "AUTHENTICATION_REQUIRED"
  require (memberships < membershipsPerAccount) "QUOTA_EXCEEDED"

/-- `assertActiveOwnershipTarget` and `assertOwnerPromotionQuota`, where a member is promoted. -/
def assertPromotable (target : MemberRow) (userId : String) (nextRole : Option WorkspaceRole) :
    Access Unit := do
  if nextRole = some .owner ∧ target.role ≠ .owner then
    require (target.status = .active) "INVALID_REQUEST"
    assertOwnerPromotionQuota userId

/-- `requireActiveAdmin(actorUserId)`. -/
def requireActiveAdmin (actorUserId : String) : Access Unit := do
  let admin ← read (·.activeAdmin actorUserId)
  require admin "ADMIN_REQUIRED"

/-- A member of the workspace, or the reason why there is none. -/
def requireMember (workspaceId actorUserId targetUserId : String) : Access MemberRow := do
  match ← read (·.currentMember workspaceId targetUserId) with
  | some target => return target
  | none => inaccessible workspaceId actorUserId

/-- What the change of a member reads first: the context of its owner, the revision it expects, the
    member, and the quota where the member becomes an owner. -/
def explainMemberMutationRefusal (workspaceId actorUserId targetUserId : String)
    (expectedAccessRevision expectedMembershipRevision : Nat) (nextRole : Option WorkspaceRole) :
    Access (WorkspaceContext × MemberRow) := do
  let context ← ownerContext workspaceId actorUserId
  assertExpectedAccess context expectedAccessRevision
  let target ← requireMember workspaceId actorUserId targetUserId
  assertPromotable target targetUserId nextRole
  require (target.membershipRevision = expectedMembershipRevision) "ACCESS_STALE"
  return (context, target)

/-! ## 3. Operations of members -/

/-- The target of a membership in the audit log. -/
def membershipTargetId (workspaceId userId : String) : String := workspaceId ++ "::" ++ userId

/-- The arguments of `changeWorkspaceMemberRole` and of the administrator's `member.role`. -/
structure RoleChange where
  workspaceId : String
  actorUserId : String
  targetUserId : String
  role : WorkspaceRole
  expectedAccessRevision : Nat
  expectedMembershipRevision : Nat

/-- The member would not be the last active owner to go. -/
def Tables.spareOwner (T : Tables) (workspaceId userId : String) : Bool :=
  T.role workspaceId userId != some .owner || !T.active userId ||
    decide (1 < T.ownerCount workspaceId)

/-- The `WHERE` clause of the update. -/
def RoleChange.allowed (c : RoleChange) (T : Tables) : Bool :=
  (T.role c.workspaceId c.targetUserId).isSome &&
    T.role c.workspaceId c.targetUserId != some c.role &&
    T.accessRevision c.workspaceId = some c.expectedAccessRevision &&
    T.activeOwner c.workspaceId c.actorUserId &&
    T.membershipRevision c.targetUserId = some c.expectedMembershipRevision &&
    (c.role != .owner || T.active c.targetUserId) &&
    (c.role = .owner || T.spareOwner c.workspaceId c.targetUserId) &&
    (c.role != .owner || T.role c.workspaceId c.targetUserId = some .owner ||
      decide (T.ownedCount c.targetUserId < ownedWorkspacesPerUser))

/-- The batch of a change of role: the row, then its audit event where the row was changed. -/
def RoleChange.statements (c : RoleChange) (fromRole : WorkspaceRole) (T : Tables) :
    Option Tables :=
  if c.allowed T then do
    let T ← T.setMemberRole c.workspaceId c.targetUserId c.role
    return T.log (some c.actorUserId) "member.role"
      (membershipTargetId c.workspaceId c.targetUserId)
      (.memberRole fromRole c.role c.targetUserId c.workspaceId)
  else some T

/-- `changeWorkspaceMemberRole(…)`: an owner changes a role. -/
def changeWorkspaceMemberRole (c : RoleChange) : Access Unit := do
  let (context, target) ← explainMemberMutationRefusal c.workspaceId c.actorUserId c.targetUserId
    c.expectedAccessRevision c.expectedMembershipRevision (some c.role)
  require (target.role ≠ c.role) "ROLE_UNCHANGED"
  require (¬(target.role = .owner ∧ target.status = .active ∧ c.role ≠ .owner ∧
    context.ownerCount ≤ 1)) "FINAL_OWNER_REQUIRED"
  batch (c.statements target.role)

/-- The arguments of `removeWorkspaceMember` and of the administrator's removal. -/
structure MemberRemoval where
  workspaceId : String
  actorUserId : String
  targetUserId : String
  expectedAccessRevision : Nat
  expectedMembershipRevision : Nat

/-- The conditions of the delete statement, read again inside the batch. -/
def MemberRemoval.allowed (c : MemberRemoval) (T : Tables) : Bool :=
  (T.role c.workspaceId c.targetUserId).isSome &&
    T.accessRevision c.workspaceId = some c.expectedAccessRevision &&
    T.activeOwner c.workspaceId c.actorUserId &&
    T.membershipRevision c.targetUserId = some c.expectedMembershipRevision &&
    T.spareOwner c.workspaceId c.targetUserId

/-- The batch of a removal: the row goes, and the event keeps the role it had. -/
def MemberRemoval.statements (c : MemberRemoval) (role : WorkspaceRole) (T : Tables) :
    Option Tables :=
  if c.allowed T then do
    let T ← T.deleteMember c.workspaceId c.targetUserId
    return T.log (some c.actorUserId) "member.remove"
      (membershipTargetId c.workspaceId c.targetUserId)
      (.memberRemove role c.targetUserId c.workspaceId)
  else some T

/-- `removeWorkspaceMember(…)`: an owner removes another member. -/
def removeWorkspaceMember (c : MemberRemoval) : Access Unit := do
  require (c.actorUserId ≠ c.targetUserId) "INVALID_REQUEST"
  let (context, target) ← explainMemberMutationRefusal c.workspaceId c.actorUserId c.targetUserId
    c.expectedAccessRevision c.expectedMembershipRevision none
  require (¬(target.role = .owner ∧ target.status = .active ∧ context.ownerCount ≤ 1))
    "FINAL_OWNER_REQUIRED"
  batch (c.statements target.role)

/-- The arguments of `transferWorkspaceOwnership`. -/
structure OwnershipTransfer where
  workspaceId : String
  actorUserId : String
  targetUserId : String
  expectedAccessRevision : Nat
  expectedActorMembershipRevision : Nat
  expectedTargetMembershipRevision : Nat

/-- The conditions of both update statements, read again inside the batch. -/
def OwnershipTransfer.allowed (c : OwnershipTransfer) (T : Tables) : Bool :=
  T.accessRevision c.workspaceId = some c.expectedAccessRevision &&
    T.activeOwner c.workspaceId c.actorUserId &&
    T.membershipRevision c.actorUserId = some c.expectedActorMembershipRevision &&
    (T.role c.workspaceId c.targetUserId).isSome &&
    T.role c.workspaceId c.targetUserId != some .owner &&
    T.membershipRevision c.targetUserId = some c.expectedTargetMembershipRevision &&
    T.active c.targetUserId &&
    decide (T.ownedCount c.targetUserId < ownedWorkspacesPerUser)

/-- One `UPDATE` of two rows. Its conditions are evaluated before it changes either. -/
def OwnershipTransfer.statements (c : OwnershipTransfer) (T : Tables) : Option Tables :=
  if c.allowed T then do
    let T ← T.setMemberRole c.workspaceId c.targetUserId .owner
    let T ← T.setMemberRole c.workspaceId c.actorUserId .editor
    return T.log (some c.actorUserId) "ownership.transfer" c.workspaceId
      (.ownershipTransfer .editor .owner c.targetUserId c.workspaceId)
  else some T

/-- `transferWorkspaceOwnership(…)`: an owner makes another member an owner and becomes an editor.
    -/
def transferWorkspaceOwnership (c : OwnershipTransfer) : Access Unit := do
  require (c.targetUserId ≠ c.actorUserId) "INVALID_REQUEST"
  let context ← ownerContext c.workspaceId c.actorUserId
  assertExpectedAccess context c.expectedAccessRevision
  require (context.membershipRevision = c.expectedActorMembershipRevision) "ACCESS_STALE"
  let target ← read? (·.currentMember c.workspaceId c.targetUserId) "NOT_FOUND_OR_INACCESSIBLE"
  require (target.membershipRevision = c.expectedTargetMembershipRevision) "ACCESS_STALE"
  require (target.role ≠ .owner) "ROLE_UNCHANGED"
  require (target.status = .active) "INVALID_REQUEST"
  assertOwnerPromotionQuota c.targetUserId
  batch c.statements

/-- The arguments of `leaveWorkspace`. -/
structure Leave where
  workspaceId : String
  actorUserId : String
  expectedAccessRevision : Nat
  expectedMembershipRevision : Nat

/-- The conditions of the delete statement: an owner leaves only where another active one stays. -/
def Leave.allowed (c : Leave) (T : Tables) : Bool :=
  (T.role c.workspaceId c.actorUserId).isSome &&
    T.accessRevision c.workspaceId = some c.expectedAccessRevision &&
    T.active c.actorUserId &&
    T.membershipRevision c.actorUserId = some c.expectedMembershipRevision &&
    (T.role c.workspaceId c.actorUserId != some .owner ||
      decide (1 < T.ownerCount c.workspaceId))

/-- The batch of a member who leaves, with the role it gave up in the event. -/
def Leave.statements (c : Leave) (role : WorkspaceRole) (T : Tables) : Option Tables :=
  if c.allowed T then do
    let T ← T.deleteMember c.workspaceId c.actorUserId
    return T.log (some c.actorUserId) "member.leave"
      (membershipTargetId c.workspaceId c.actorUserId)
      (.memberLeave role c.actorUserId c.workspaceId)
  else some T

/-- `leaveWorkspace(…)`: a member removes itself. -/
def leaveWorkspace (c : Leave) : Access Unit := do
  let context ← workspaceContext c.workspaceId c.actorUserId
  assertExpectedAccess context c.expectedAccessRevision
  require (context.membershipRevision = c.expectedMembershipRevision) "ACCESS_STALE"
  require (¬(context.role = .owner ∧ context.ownerCount ≤ 1)) "FINAL_OWNER_REQUIRED"
  batch (c.statements context.role)

/-! ## 4. Operations of administrators -/

/-- The `WHERE` clause of `member.role`. Nothing is read before the batch. -/
def RoleChange.adminAllowed (c : RoleChange) (T : Tables) : Bool :=
  (T.role c.workspaceId c.targetUserId).isSome &&
    T.role c.workspaceId c.targetUserId != some c.role &&
    !T.isDeleted c.workspaceId &&
    (c.role = .owner || T.spareOwner c.workspaceId c.targetUserId) &&
    (c.role != .owner || T.active c.targetUserId) &&
    (c.role != .owner || T.role c.workspaceId c.targetUserId = some .owner ||
      decide (T.ownedCount c.targetUserId < ownedWorkspacesPerUser)) &&
    T.accessRevision c.workspaceId = some c.expectedAccessRevision &&
    T.membershipRevision c.targetUserId = some c.expectedMembershipRevision &&
    T.activeAdmin c.actorUserId

/-- The event keeps the new role only. -/
def RoleChange.adminStatements (c : RoleChange) (T : Tables) : Option Tables :=
  if c.adminAllowed T then do
    let T ← T.setMemberRole c.workspaceId c.targetUserId c.role
    return T.log (some c.actorUserId) "member.role"
      (membershipTargetId c.workspaceId c.targetUserId) (.workspaceRole c.role)
  else some T

/-- `case "member.role"` of `adminMutation`: an administrator changes a role without being a member.
    -/
def adminMemberRole (c : RoleChange) : Access Unit := do
  requireActiveAdmin c.actorUserId
  batch c.adminStatements

/-- The conditions of the administrator's delete statement. -/
def MemberRemoval.adminAllowed (c : MemberRemoval) (T : Tables) : Bool :=
  (T.role c.workspaceId c.targetUserId).isSome &&
    !T.isDeleted c.workspaceId &&
    T.spareOwner c.workspaceId c.targetUserId &&
    T.accessRevision c.workspaceId = some c.expectedAccessRevision &&
    T.membershipRevision c.targetUserId = some c.expectedMembershipRevision &&
    T.activeAdmin c.actorUserId

/-- The batch of the administrator's removal. -/
def MemberRemoval.adminStatements (c : MemberRemoval) (T : Tables) : Option Tables :=
  if c.adminAllowed T then do
    let T ← T.deleteMember c.workspaceId c.targetUserId
    return T.log (some c.actorUserId) "member.remove"
      (membershipTargetId c.workspaceId c.targetUserId) .empty
  else some T

/-- `case "member.remove"` of `adminMutation`: an administrator removes a member. -/
def adminMemberRemove (c : MemberRemoval) : Access Unit := do
  requireActiveAdmin c.actorUserId
  batch c.adminStatements

/-! ## 5. Guest links -/

/-- The arguments of `createWorkspaceGuestLink`, with the id and the hash of the new token. -/
structure GuestLinkCreation where
  workspaceId : String
  actorUserId : String
  guestLinkId : String
  tokenHash : String
  role : GuestRole
  at' : Timestamp
  expiresAt : Timestamp
  expectedAccessRevision : Nat

/-- The row of a new link: not used, not revoked. -/
def GuestLinkCreation.link (c : GuestLinkCreation) : GuestLink where
  guestLinkId := c.guestLinkId
  workspaceId := c.workspaceId
  createdByUserId := c.actorUserId
  tokenHash := c.tokenHash
  role := c.role
  createdAt := c.at'
  expiresAt := c.expiresAt
  consumedAt := none
  revokedAt := none
  redemptionId := none

/-- The conditions of the insert statement: the authority, and room for a retained and for an active
    link. -/
def GuestLinkCreation.allowed (c : GuestLinkCreation) (T : Tables) : Bool :=
  T.accessRevision c.workspaceId = some c.expectedAccessRevision &&
    T.activeOwner c.workspaceId c.actorUserId &&
    decide (T.guestLinks.count (·.workspaceId = c.workspaceId) < retainedGuestLinksPerWorkspace) &&
    decide (T.activeLinkCount c.workspaceId c.at' < activeGuestLinksPerWorkspace)

/-- The batch of a new link and its audit event. -/
def GuestLinkCreation.statements (c : GuestLinkCreation) (T : Tables) : Option Tables :=
  if c.allowed T then do
    let T ← T.insertGuestLink c.link
    return T.log (some c.actorUserId) "guest.create" c.guestLinkId
      (.guestCreate c.role c.expiresAt c.workspaceId)
  else some T

/-- `createWorkspaceGuestLink(…)`: an owner invites a guest. -/
def createWorkspaceGuestLink (c : GuestLinkCreation) : Access Unit := do
  let context ← ownerContext c.workspaceId c.actorUserId
  assertExpectedAccess context c.expectedAccessRevision
  let allowance ← read (·.allowance)
  require (allowance.guestLink c.actorUserId) "CIRCUIT_PAUSED"
  batchAs (.invitation c.guestLinkId) c.statements

/-- The arguments of `revokeWorkspaceGuestLink`. -/
structure GuestLinkRevocation where
  workspaceId : String
  actorUserId : String
  guestLinkId : String
  at' : Timestamp
  expectedAccessRevision : Nat

/-- `status = 'active'` of a guest link. -/
def GuestLink.usable (l : GuestLink) (at' : Timestamp) : Bool :=
  l.revokedAt.isNone && l.consumedAt.isNone && decide (at' < l.expiresAt)

/-- The link of the workspace, by its identifier. -/
def Tables.currentGuestLink (T : Tables) (workspaceId guestLinkId : String) : Option GuestLink :=
  (T.guestLinks.get guestLinkId).filter (·.workspaceId = workspaceId)

/-- The authority of the update statement; that the link is usable is asked of its row. -/
def GuestLinkRevocation.allowed (c : GuestLinkRevocation) (T : Tables) : Bool :=
  T.accessRevision c.workspaceId = some c.expectedAccessRevision &&
    T.activeOwner c.workspaceId c.actorUserId

/-- The batch of a revocation, which changes only a link that is still usable. -/
def GuestLinkRevocation.statements (c : GuestLinkRevocation) (role : GuestRole) (T : Tables) :
    Option Tables :=
  match T.currentGuestLink c.workspaceId c.guestLinkId with
  | some link =>
    if link.usable c.at' && c.allowed T then do
      let T ← T.revokeLink c.guestLinkId c.at'
      return T.log (some c.actorUserId) "guest.revoke" c.guestLinkId
        (.guestRevoke role c.workspaceId)
    else some T
  | none => some T

/-- `revokeWorkspaceGuestLink(…)`: an owner takes an invitation back. -/
def revokeWorkspaceGuestLink (c : GuestLinkRevocation) : Access Unit := do
  let context ← ownerContext c.workspaceId c.actorUserId
  assertExpectedAccess context c.expectedAccessRevision
  let before ← read? (·.currentGuestLink c.workspaceId c.guestLinkId) "NOT_FOUND_OR_INACCESSIBLE"
  require (before.usable c.at') "ACCESS_STALE"
  batch (c.statements before.role)

/-- The arguments of `case "guest.revoke"` of `adminMutation`. -/
structure AdminLinkRevocation where
  actorUserId : String
  guestLinkId : String
  at' : Timestamp

/-- Its batch: no membership is asked for, but the workspace must not be deleted. -/
def AdminLinkRevocation.statements (c : AdminLinkRevocation) (T : Tables) : Option Tables :=
  match T.guestLinks.get c.guestLinkId with
  | some link =>
    if link.usable c.at' && !T.isDeleted link.workspaceId && T.activeAdmin c.actorUserId then do
      let T ← T.revokeLink c.guestLinkId c.at'
      return T.log (some c.actorUserId) "guest.revoke" c.guestLinkId .empty
    else some T
  | none => some T

/-- `guest.revoke`. -/
def adminRevokeLink (c : AdminLinkRevocation) : Access Unit := do
  requireActiveAdmin c.actorUserId
  batch c.statements

/-- The arguments of `case "guest.delete"` of `adminMutation`. -/
structure AdminLinkDeletion where
  actorUserId : String
  guestLinkId : String
  at' : Timestamp

/-- The status a deleted link had, as the audit event records it. -/
def GuestLink.priorStatus (l : GuestLink) (at' : Timestamp) : String :=
  if l.revokedAt.isSome then "revoked"
  else if l.consumedAt.isSome then "used"
  else if l.expiresAt ≤ at' then "expired"
  else "active"

/-- The columns that were read are as they were. -/
def GuestLink.unchanged (l row : GuestLink) : Bool :=
  l.workspaceId = row.workspaceId && l.role = row.role && l.createdAt = row.createdAt &&
    l.expiresAt = row.expiresAt && l.consumedAt = row.consumedAt && l.revokedAt = row.revokedAt &&
    l.createdByUserId = row.createdByUserId && l.redemptionId = row.redemptionId

/-- Its batch: the row goes only while it is the row that was read. -/
def AdminLinkDeletion.statements (c : AdminLinkDeletion) (row : GuestLink) (T : Tables) :
    Option Tables :=
  match T.guestLinks.get c.guestLinkId with
  | some link =>
    if link.unchanged row && T.activeAdmin c.actorUserId then do
      let T ← T.deleteLink c.guestLinkId
      return T.log (some c.actorUserId) "guest.delete" c.guestLinkId
        (.guestDelete (row.priorStatus c.at') row)
    else some T
  | none => some T

/-- `guest.delete`. -/
def adminDeleteLink (c : AdminLinkDeletion) : Access Unit := do
  requireActiveAdmin c.actorUserId
  let row ← read? (·.guestLinks.get c.guestLinkId) "AdminMutationError"
  batch (c.statements row)

/-- What `cleanupAuthRecords` does to guest links, some time after they expired. -/
def cleanupGuestLinks (cutoff : Timestamp) : Access Unit :=
  batch fun T => T.forRows (T.expiredLinks cutoff) fun T l => T.deleteLink l.guestLinkId

/-- The arguments of `consumeGuestLink`, with the id of this redemption. -/
structure Redemption where
  tokenHash : String
  userId : String
  redemptionId : String
  at' : Timestamp

/-- The link that the token opens. -/
def Redemption.row (c : Redemption) (T : Tables) : Option GuestLink :=
  T.guestLinks.rows.find? fun l => l.tokenHash = c.tokenHash && l.usable c.at' &&
    (T.snapshots.get l.workspaceId).isSome && !T.isDeleted l.workspaceId

/-- The conditions of the update statement that uses a link up. -/
def Redemption.allowed (c : Redemption) (T : Tables) (link : GuestLink) : Bool :=
  link.usable c.at' && link.redemptionId.isNone && T.active c.userId &&
    (T.snapshots.get link.workspaceId).isSome && !T.isDeleted link.workspaceId &&
    (T.role link.workspaceId c.userId).isNone &&
    decide (T.memberCount link.workspaceId < membersPerWorkspace)

/-- The first statement: the link is used up. -/
def Redemption.consume (c : Redemption) (guestLinkId : String) (T : Tables) : Option Tables :=
  match T.guestLinks.get guestLinkId with
  | some link => if c.allowed T link then T.consumeLink guestLinkId c.at' c.redemptionId
    else some T
  | none => some T

/-- The second: who used it up becomes a member. -/
def Redemption.join (c : Redemption) (guestLinkId : String) (T : Tables) : Option Tables :=
  match (T.guestLinks.get guestLinkId).filter (·.redemptionId = some c.redemptionId) with
  | some link =>
    if T.active c.userId then
      T.insertMember ⟨link.workspaceId, c.userId, link.role.toRole, c.at'⟩
    else some T
  | none => some T

/-- The third: an event, if the member has the role of the link. -/
def Redemption.event (c : Redemption) (row : GuestLink) (T : Tables) : Tables :=
  match (T.guestLinks.get row.guestLinkId).filter (·.redemptionId = some c.redemptionId) with
  | some link =>
    if T.role link.workspaceId c.userId = some link.role.toRole then
      T.log (some c.userId) "member.invite.accept" c.userId
        (.inviteAccept row.role row.guestLinkId row.workspaceId)
    else T
  | none => T

/-- The batch of a redemption: the link is used up, the member joins, the event is written, each
    only where the statement before it took effect. -/
def Redemption.statements (c : Redemption) (row : GuestLink) (T : Tables) : Option Tables := do
  let T ← c.consume row.guestLinkId T
  let T ← c.join row.guestLinkId T
  return c.event row T

/-- `consumeGuestLink(…)`: an account redeems an invitation. -/
def consumeGuestLink (c : Redemption) : Access Unit := do
  let allowance ← read (·.allowance)
  require allowance.redemption "CIRCUIT_PAUSED"
  membershipAdmissionRefusal c.userId
  let row ← read? c.row "InvitationError"
  batchAs (.redemption c.redemptionId) (c.statements row)

end Stowplan.Governance
