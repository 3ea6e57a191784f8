/-
  File:      Stowplan/Domain/Access.lean
  Subject:   WHO MAY DO WHAT IN A WORKSPACE, as the device knows it (workspace-access.ts).

  A device keeps with each workspace what the server last said of it: the role, what the role
  allows, and the two revisions that date the answer. A workspace the server does not know is
  device-only, and its device may write.

  * `normalizeWorkspaceAccessState`: what is stored, read again;
  * `shouldApplyWorkspaceAccess`: whether an answer replaces the one that is stored;
  * `hasForeignPendingWork`: whether work of another account waits.
-/
import Stowplan.Domain.Types

namespace Stowplan

/-! ## 1. Roles and accounts -/

/-- `WorkspaceRole`. -/
inductive WorkspaceRole where
  | owner | editor | viewer
  deriving DecidableEq

/-- `WorkspaceAccessStatus`. -/
inductive WorkspaceAccessStatus where
  | active | revoked | left | deleted | unknown
  deriving DecidableEq

/-- `WorkspaceAccessKind`. -/
inductive WorkspaceAccessKind where
  | deviceOnly | server
  deriving DecidableEq

/-- `WorkspaceCapabilities`. -/
structure WorkspaceCapabilities where
  delete : Bool
  leave : Bool
  manageAccess : Bool
  read : Bool
  write : Bool
  deriving DecidableEq

/-- An account property: `string | null`, or left out. -/
inductive AccountRef where
  | undefined
  | null
  | id (text : String)
  deriving DecidableEq

/-- `WorkspaceAccessState`: what a device knows of the access to a workspace. -/
structure WorkspaceAccessState where
  accountId : AccountRef
  accessRevision : Int
  capabilities : WorkspaceCapabilities
  checkedAt : Option String
  kind : WorkspaceAccessKind
  membershipRevision : Int
  role : Option WorkspaceRole
  status : WorkspaceAccessStatus
  deriving DecidableEq

/-- `ServerWorkspaceSummary`: a workspace in a list of the server. -/
structure ServerWorkspaceSummary where
  accountId : AccountRef
  accessRevision : Int
  capabilities : WorkspaceCapabilities
  id : String
  membershipRevision : Int
  name : String
  revision : Int
  role : WorkspaceRole
  updatedAt : String
  deriving DecidableEq

/-- `nonNegativeInteger(value)`. -/
def nonNegativeInteger (n : Int) : Int := if JsNumber.safeInt n && decide (0 ≤ n) then n else 0

/-- `optionalString(value)`. -/
def optionalString (s : String) : Option String := if blank s then none else some s

/-- `optionalString` of an account property. -/
def AccountRef.optional : AccountRef → Option String
  | .id text => optionalString text
  | _ => none

/-- A value that is null when it is missing. -/
def AccountRef.ofOption : Option String → AccountRef
  | some text => .id text
  | none => .null

/-- `WORKSPACE_ROLE_RANK`. -/
def WorkspaceRole.rank : WorkspaceRole → Nat
  | .viewer => 0
  | .editor => 1
  | .owner => 2

/-- `capabilitiesForWorkspaceRole(role)`. -/
def capabilitiesForWorkspaceRole (role : WorkspaceRole) : WorkspaceCapabilities where
  delete := role = .owner
  leave := role ≠ .owner
  manageAccess := role = .owner
  read := true
  write := role = .owner || role = .editor

/-- `{ ...NO_CAPABILITIES, read: true }`. -/
def readOnlyCapabilities : WorkspaceCapabilities := ⟨false, false, false, true, false⟩

/-- `deviceOnlyWorkspaceAccess()`. -/
def deviceOnlyWorkspaceAccess : WorkspaceAccessState where
  accountId := .null
  accessRevision := 0
  capabilities := ⟨false, false, false, true, true⟩
  checkedAt := none
  kind := .deviceOnly
  membershipRevision := 0
  role := some .owner
  status := .active

/-! ## 2. Reading what is stored -/

/-- `normalizeCapabilities(value, role, status)`. -/
def normalizeCapabilities (value : WorkspaceCapabilities) (role : WorkspaceRole)
    (status : WorkspaceAccessStatus) : WorkspaceCapabilities :=
  if status ≠ .active then readOnlyCapabilities
  else
    let maximum := capabilitiesForWorkspaceRole role
    { delete := maximum.delete && value.delete
      leave := value.leave
      manageAccess := maximum.manageAccess && value.manageAccess
      read := maximum.read && value.read
      write := maximum.write && value.write }

/-- `normalizeWorkspaceAccessState(value)`. -/
def normalizeWorkspaceAccessState (value : Option WorkspaceAccessState) : WorkspaceAccessState :=
  match value with
  | none => deviceOnlyWorkspaceAccess
  | some value =>
    if value.kind ≠ .server then deviceOnlyWorkspaceAccess
    else {
      accountId := .ofOption value.accountId.optional
      accessRevision := nonNegativeInteger value.accessRevision
      capabilities := match value.role with
        | none => readOnlyCapabilities
        | some role => normalizeCapabilities value.capabilities role value.status
      checkedAt := value.checkedAt.bind optionalString
      kind := .server
      membershipRevision := nonNegativeInteger value.membershipRevision
      role := value.role
      status := value.status }

/-- `normalizeServerWorkspaceSummary(value)`. -/
def normalizeServerWorkspaceSummary (value : ServerWorkspaceSummary) :
    Option ServerWorkspaceSummary := do
  let id ← optionalString value.id
  let name ← optionalString value.name
  let updatedAt ← optionalString value.updatedAt
  return {
    accountId := .ofOption value.accountId.optional
    accessRevision := nonNegativeInteger value.accessRevision
    capabilities := normalizeCapabilities value.capabilities value.role .active
    id
    membershipRevision := nonNegativeInteger value.membershipRevision
    name
    revision := nonNegativeInteger value.revision
    role := value.role
    updatedAt }

/-- `workspaceAccountIdsMatch(left, right)`. -/
def workspaceAccountIdsMatch (left right : AccountRef) : Bool := left.optional = right.optional

/-- `workspaceAccessForAccount(value, accountId)`. -/
def workspaceAccessForAccount (value : Option WorkspaceAccessState) (accountId : AccountRef) :
    WorkspaceAccessState :=
  let access := normalizeWorkspaceAccessState value
  match accountId.optional with
  | none => access
  | some current =>
    if access.kind ≠ .server || workspaceAccountIdsMatch access.accountId (.id current) then access
    else {
      accountId := .id current
      accessRevision := access.accessRevision
      capabilities := readOnlyCapabilities
      checkedAt := access.checkedAt
      kind := .server
      membershipRevision := access.membershipRevision
      role := none
      status := .unknown }

/-- `workspaceAccessFromSummary(summary, checkedAt)`. -/
def workspaceAccessFromSummary (summary : ServerWorkspaceSummary) (checkedAt : String) :
    WorkspaceAccessState where
  accountId := .ofOption summary.accountId.optional
  accessRevision := summary.accessRevision
  capabilities := normalizeCapabilities summary.capabilities summary.role .active
  checkedAt := some checkedAt
  kind := .server
  membershipRevision := summary.membershipRevision
  role := some summary.role
  status := .active

/-! ## 3. Which answer is newer -/

/-- Whether one of the capabilities is gained. -/
def gainsCapability (current candidate : WorkspaceCapabilities) : Bool :=
  (candidate.delete && !current.delete) || (candidate.leave && !current.leave) ||
    (candidate.manageAccess && !current.manageAccess) || (candidate.read && !current.read) ||
    (candidate.write && !current.write)

/-- `shouldApplyWorkspaceAccess(current, candidate)`: whether what was just read replaces what is
    stored. -/
def shouldApplyWorkspaceAccess (current candidate : WorkspaceAccessState) : Bool :=
  if candidate.kind = .deviceOnly then current.kind = .deviceOnly
  else if current.kind = .deviceOnly then true
  else
    let currentAccountId := current.accountId.optional
    let candidateAccountId := candidate.accountId.optional
    if candidateAccountId.isSome && candidateAccountId ≠ currentAccountId then true
    else if currentAccountId.isSome && candidateAccountId.isNone then false
    else if candidate.membershipRevision ≠ current.membershipRevision then
      decide (current.membershipRevision < candidate.membershipRevision)
    else if candidate.accessRevision ≠ current.accessRevision then
      decide (current.accessRevision < candidate.accessRevision)
    else if current.status ≠ candidate.status then
      current.status = .active && candidate.status ≠ .active
    else if current.role ≠ candidate.role then
      match candidate.role, current.role with
      | none, _ => true
      | some _, none => false
      | some new, some old => decide (new.rank < old.rank)
    else !gainsCapability current.capabilities candidate.capabilities

/-- `compareServerWorkspaceSummaries(left, right)`. -/
def compareServerWorkspaceSummaries [Collation] (left right : ServerWorkspaceSummary) : Int :=
  if left.membershipRevision ≠ right.membershipRevision then
    left.membershipRevision - right.membershipRevision
  else if left.accessRevision ≠ right.accessRevision then
    left.accessRevision - right.accessRevision
  else if left.revision ≠ right.revision then left.revision - right.revision
  else Collation.localeCompare left.updatedAt right.updatedAt

/-- `workspaceReadOnlyReason(access)`. -/
def workspaceReadOnlyReason (access : WorkspaceAccessState) : Option String :=
  if access.capabilities.write then none
  else match access.status with
    | .deleted => some "The server workspace was deleted. This retained device copy is read-only."
    | .left => some "You left this workspace. This retained device copy is read-only."
    | .revoked => some "Your workspace access was removed. This retained device copy is read-only."
    | _ =>
      if access.role = some .viewer then
        some "Viewer access allows browsing and export, but not editing."
      else some "Editing is unavailable until workspace access can be confirmed."

/-- `requireWorkspaceWriteAccess(access)`. -/
def requireWorkspaceWriteAccess (access : WorkspaceAccessState) : Result Unit :=
  match workspaceReadOnlyReason access with
  | some reason => .error (.domain "WORKSPACE_READ_ONLY" reason)
  | none => .ok ()

/-! ## 4. What normalising keeps -/

@[simp] theorem optional_ofOption_optional (a : AccountRef) :
    (AccountRef.ofOption a.optional).optional = a.optional := by
  cases a with
  | id s =>
      by_cases h : blank s = true
      · simp [AccountRef.optional, optionalString, h, AccountRef.ofOption]
      · simp [AccountRef.optional, optionalString, h, AccountRef.ofOption]
  | _ => rfl

end Stowplan
