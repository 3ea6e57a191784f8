/-
  File:      Stowplan/Governance/SignIn.lean
  Subject:   SIGNING IN AND LINKING IDENTITIES (auth.ts, account-governance.ts).

  A provider has vouched for an identity. Unless the identity is banned, it opens the account that
  holds it, is linked to the account of a session, or comes with a new account; then a session is
  issued.

  * `createOrLinkUser`: the account of an identity;
  * `issueSession`: a session of that account.
-/
import Stowplan.Governance.Accounts

namespace Stowplan.Governance

open Tables Program

/-- An account's session that an identity is to be linked under. -/
structure LinkIntent where
  sessionId : String
  userId : String

/-- The arguments of a sign-in: the profile, the intent, and the ids of what it may create. -/
structure SignIn where
  provider : String
  subject : String
  email : String
  displayName : String
  linkIntent : Option LinkIntent
  requireRecentAuthentication : Bool
  requireExistingIdentity : Bool
  /-- `newId("usr")`. -/
  newUserId : String
  now : Timestamp
  /-- `now` less `RECENT_IDENTITY_LINK_AUTHENTICATION_MS`. -/
  recentCutoff : Timestamp
  sessionId : String
  sessionCreatedAt : Timestamp
  sessionExpiresAt : Timestamp

/-! ## 1. The account of an identity -/

/-- `identity_digest = ? AND lifted_at IS NULL`. -/
def Tables.isBanned (T : Tables) (identityDigest : String) : Bool :=
  (T.banDigests.get identityDigest).any (·.liftedAt.isNone)

/-- `assertIdentityNotBanned(…)`. -/
def assertIdentityNotBanned (identityDigest : String) : Access Unit := do
  let banned ← read (·.isBanned identityDigest)
  require (!banned) "ACCOUNT_BANNED"

/-- The session is open, and recent enough. -/
def SignIn.openSession (c : SignIn) (intent : LinkIntent) (T : Tables) : Bool :=
  (T.sessions.get intent.sessionId).any fun s => s.userId = intent.userId && s.revokedAt.isNone &&
    decide (c.now < s.expiresAt) &&
    (!c.requireRecentAuthentication ||
      decide (c.recentCutoff ≤ s.reauthenticatedAt.getD s.createdAt))

/-- `activeIdentityLinkTarget(intent)`: the account of the open session. -/
def SignIn.linkTarget (c : SignIn) (intent : LinkIntent) (T : Tables) : Option User :=
  if c.openSession intent T then (T.users.get intent.userId).filter User.isLive else none

/-- `activeIdentityLinkTarget`, where there is an intent. -/
def SignIn.findLinkTarget (c : SignIn) : Access (Option User) :=
  match c.linkIntent with
  | some intent => do
    let target ← read? (c.linkTarget intent) "INVALID_LINK_INTENT"
    return some target
  | none => return none

/-- The account that holds the identity. -/
def SignIn.existingIdentity (c : SignIn) (T : Tables) : Option User := do
  let identity ← T.identities.get (c.provider, c.subject)
  T.users.get identity.userId

/-- `SET email = ?` of an identity. -/
def Identity.withEmail (email : String) (i : Identity) : Identity := { i with email }

theorem Identity.withEmail_key (email : String) (i : Identity) :
    Row.key (i.withEmail email) = Row.key i := rfl

/-- `UPDATE identities SET email = ?, last_used_at = ? WHERE …`. -/
def SignIn.touch (c : SignIn) (T : Tables) : Option Tables :=
  match T.identities.get (c.provider, c.subject) with
  | some identity =>
    Tables.countAccount { T with
      identities := T.identities.update (fun i => Row.key i = (c.provider, c.subject))
        (·.withEmail c.email) (Identity.withEmail_key c.email) } identity.userId
      (identity.email != c.email)
  | none => some T

/-- The row of a new identity. -/
def SignIn.identity (c : SignIn) (userId : String) : Identity :=
  ⟨userId, c.provider, c.subject, c.email⟩

/-- The identity is linked, if the session is still open and the account has room for it. -/
def SignIn.link (c : SignIn) (intent : LinkIntent) (T : Tables) : Option Tables :=
  if c.openSession intent T && T.live intent.userId &&
      decide (T.identities.count (·.userId = intent.userId) < linkedIdentitiesPerAccount) then
    T.insertIdentity (c.identity intent.userId)
  else some T

/-- The row of a new account. -/
def SignIn.user (c : SignIn) : User where
  userId := c.newUserId
  email := c.email
  displayName := c.displayName
  globalRole := .user
  status := .active
  accountRevision := 0
  membershipRevision := 0
  updatedAt := c.now
  deletedAt := none

/-- A new account, with the identity. -/
def SignIn.create (c : SignIn) (T : Tables) : Option Tables := do
  let T ← T.insertUser c.user
  T.insertIdentity (c.identity c.newUserId)

/-- The identity is known. -/
def SignIn.useExisting (c : SignIn) (target : Option User) (existing : User) : Access String := do
  require (existing.status ≠ .banned) "ACCOUNT_BANNED"
  require (existing.status = .active) "AUTHENTICATION_REQUIRED"
  require (target.all (·.userId = existing.userId)) "IDENTITY_OF_ANOTHER_ACCOUNT"
  batch c.touch
  return existing.userId

/-- The identity is new, and is linked to the account of the session. -/
def SignIn.linkNew (c : SignIn) (intent : LinkIntent) (target : User) : Access String := do
  batchAs (.register c.provider c.subject) (c.link intent)
  let linked ← read fun T => (T.identities.get (c.provider, c.subject)).map (·.userId)
  require (linked = some target.userId) "IDENTITY_NOT_LINKED"
  return target.userId

/-- The identity is new, and so is the account. -/
def SignIn.createNew (c : SignIn) : Access String := do
  let taken ← read fun T => T.users.any fun u => sameEmail u.email c.email
  require (!taken) "EMAIL_OF_ANOTHER_ACCOUNT"
  let allowance ← read (·.allowance)
  require allowance.newAccount "CIRCUIT_PAUSED"
  batchAs (.register c.provider c.subject) c.create
  return c.newUserId

/-- The identity is not known: it is linked to the account of the session, or gets a new one. -/
def SignIn.register (c : SignIn) (target : Option User) : Access String := do
  require (!c.requireExistingIdentity) "IDENTITY_NOT_LINKED"
  match target, c.linkIntent with
  | some user, some intent => c.linkNew intent user
  | _, _ => c.createNew

/-- `createOrLinkUser(…)`: the account of an identity. -/
def createOrLinkUser (digest : String → String → String) (c : SignIn) : Access String := do
  require (c.provider ≠ "" ∧ c.subject ≠ "" ∧ c.email ≠ "") "INVALID_PROFILE"
  assertIdentityNotBanned (digest c.provider c.subject)
  let target ← c.findLinkTarget
  match ← read c.existingIdentity with
  | some existing => c.useExisting target existing
  | none => c.register target

/-! ## 2. The session -/

/-- `sessionIssuanceRefusal`. -/
def sessionIssuanceRefusal (userId : String) : Access Unit := do
  let (status, live, allowance) ← read fun T => (T.status userId, T.live userId, T.allowance)
  require (status ≠ some .banned) "ACCOUNT_BANNED"
  require live "AUTHENTICATION_REQUIRED"
  require (allowance.session userId) "QUOTA_EXCEEDED"

/-- The row of a new session. -/
def SignIn.session (c : SignIn) (userId : String) : Session where
  sessionId := c.sessionId
  userId
  createdAt := c.sessionCreatedAt
  expiresAt := c.sessionExpiresAt
  revokedAt := none
  reauthenticatedAt := none

/-- A session is inserted for an account that is active. The sessions that it replaces are
    revoked by a trigger. -/
def SignIn.issue (c : SignIn) (userId : String) (T : Tables) : Option Tables :=
  if T.live userId then do
    let T ← T.insertSession (c.session userId)
    return T.log (some userId) "session.issue" c.sessionId .empty
  else some T

/-- `issueSession(…)`, once the limits allow it. -/
def issueSession (c : SignIn) (userId : String) : Access Unit := do
  sessionIssuanceRefusal userId
  batchAs (.session c.provider c.subject userId) (c.issue userId)

/-- A sign-in, to its end. -/
def signIn (digest : String → String → String) (c : SignIn) : Access Unit := do
  let userId ← createOrLinkUser digest c
  issueSession c userId

/-- An identity link, which issues no session. -/
def linkIdentity (digest : String → String → String) (c : SignIn) : Access Unit := do
  let _ ← createOrLinkUser digest c
  return ()

end Stowplan.Governance
