/-
  File:      Stowplan/Governance/Revisions.lean
  Subject:   REVISIONS WITNESS ACCESS: what a statement on one row changes, it counts.

  The access revision of a workspace moves on with every change of who its members are, in which
  role and in which state, and of its guest links. The membership revision of an account moves on
  with its state and its memberships.

  * `Witness`: between two moments the revisions did not fall, and where they are the same the
    facts are;
  * `updateUser_spec`, `bumpMember_spec`: what the statements leave;
  * `updateUser_witness`, `insertMember_witness`, …: each statement is witnessed.
-/
import Stowplan.Governance.Tables

namespace Stowplan.Governance

open Tables

/-! ## 1. What the revisions witness -/

/-- What decides whether a link may be used. -/
structure LinkFact where
  role : GuestRole
  expiresAt : Timestamp
  consumedAt : Option Timestamp
  revokedAt : Option Timestamp

/-- The facts of a link. -/
def GuestLink.fact (l : GuestLink) : LinkFact := ⟨l.role, l.expiresAt, l.consumedAt, l.revokedAt⟩

namespace Tables

/-- A member of the workspace: its role, and the status of its account. -/
def memberFact (T : Tables) (workspaceId userId : String) :
    Option (WorkspaceRole × Option AccountStatus) :=
  (T.role workspaceId userId).map fun role => (role, T.status userId)

/-- A guest link of the workspace. -/
def linkFact (T : Tables) (workspaceId guestLinkId : String) : Option LinkFact :=
  ((T.guestLinks.get guestLinkId).filter fun l => l.workspaceId = workspaceId).map GuestLink.fact

end Tables

/-- The same members, roles, states and guest links. -/
def SameAccess (s t : Tables) (workspaceId : String) : Prop :=
  (∀ userId, s.memberFact workspaceId userId = t.memberFact workspaceId userId) ∧
    ∀ guestLinkId, s.linkFact workspaceId guestLinkId = t.linkFact workspaceId guestLinkId

/-- The same state and memberships. -/
def SameMembership (s t : Tables) (userId : String) : Prop :=
  s.status userId = t.status userId ∧
    ∀ workspaceId, s.role workspaceId userId = t.role workspaceId userId

theorem SameAccess.refl (s : Tables) (w : String) : SameAccess s s w := ⟨fun _ => rfl, fun _ => rfl⟩

/-- Access that stayed twice stayed. -/
theorem SameAccess.trans {s t u : Tables} {w : String} (h : SameAccess s t w)
    (h' : SameAccess t u w) : SameAccess s u w :=
  ⟨fun x => (h.1 x).trans (h'.1 x), fun x => (h.2 x).trans (h'.2 x)⟩

theorem SameMembership.refl (s : Tables) (u : String) : SameMembership s s u :=
  ⟨rfl, fun _ => rfl⟩

/-- A membership that stayed twice stayed. -/
theorem SameMembership.trans {r s t : Tables} {u : String} (h : SameMembership r s u)
    (h' : SameMembership s t u) : SameMembership r t u :=
  ⟨h.1.trans h'.1, fun w => (h.2 w).trans (h'.2 w)⟩

/-- From one moment to a later one: revisions only grow, and where one is the same, so is what it
    witnesses. A workspace that is gone has a tombstone, and a tombstone stays. -/
structure Witness (s t : Tables) : Prop where
  deleted : ∀ w, s.isDeleted w = true → t.isDeleted w = true
  workspace : ∀ w n, s.accessRevision w = some n → t.isDeleted w = true ∨
    ∃ m, t.accessRevision w = some m ∧ n ≤ m ∧ (m = n → SameAccess s t w)
  account : ∀ u n, s.membershipRevision u = some n →
    ∃ m, t.membershipRevision u = some m ∧ n ≤ m ∧ (m = n → SameMembership s t u)

theorem Witness.refl (s : Tables) : Witness s s where
  deleted _ h := h
  workspace w n h := .inr ⟨n, h, le_refl n, fun _ => .refl s w⟩
  account u n h := ⟨n, h, le_refl n, fun _ => .refl s u⟩

/-- Revisions that witness twice witness the whole. -/
theorem Witness.trans {s t r : Tables} (h : Witness s t) (h' : Witness t r) : Witness s r where
  deleted w hw := h'.deleted w (h.deleted w hw)
  workspace w n hn := by
    rcases h.workspace w n hn with hd | ⟨m, hm, hle, hsame⟩
    · exact .inl (h'.deleted w hd)
    · refine (h'.workspace w m hm).imp_right ?_
      rintro ⟨k, hk, hle', hsame'⟩
      refine ⟨k, hk, hle.trans hle', fun heq => ?_⟩
      have hm : m = n := by omega
      exact (hsame hm).trans (hsame' (by omega))
  account u n hn := by
    obtain ⟨m, hm, hle, hsame⟩ := h.account u n hn
    obtain ⟨k, hk, hle', hsame'⟩ := h'.account u m hm
    refine ⟨k, hk, hle.trans hle', fun heq => ?_⟩
    have hm : m = n := by omega
    exact (hsame hm).trans (hsame' (by omega))

/-- What is counted where it changes is witnessed. -/
theorem Witness.of_counted {s t : Tables} (U W : String → Bool)
    (hdeleted : ∀ w, s.isDeleted w = true → t.isDeleted w = true)
    (hu : ∀ u, t.membershipRevision u =
      (s.membershipRevision u).map fun n => if U u then n + 1 else n)
    (hw : ∀ w, t.accessRevision w = (s.accessRevision w).map fun n => if W w then n + 1 else n)
    (hsameU : ∀ u, U u = false → SameMembership s t u)
    (hsameW : ∀ w, W w = false → SameAccess s t w) : Witness s t where
  deleted := hdeleted
  workspace w n hn := by
    refine .inr ⟨if W w then n + 1 else n, by rw [hw, hn]; rfl, ?_, fun heq => ?_⟩
    · split
      · exact Nat.le_succ n
      · exact le_refl n
    · refine hsameW w (Bool.eq_false_iff.mpr fun h => ?_)
      rw [if_pos h] at heq
      omega
  account u n hn := by
    refine ⟨if U u then n + 1 else n, by rw [hu, hn]; rfl, ?_, fun heq => ?_⟩
    · split
      · exact Nat.le_succ n
      · exact le_refl n
    · refine hsameU u (Bool.eq_false_iff.mpr fun h => ?_)
      rw [if_pos h] at heq
      omega

/-- What the foreign keys and the statements keep: a member has an account, and a deleted account
    is not active. -/
structure Consistent (T : Tables) : Prop where
  members : ∀ w u, T.role w u ≠ none → T.users.get u ≠ none
  deleted : ∀ u x, T.users.get u = some x → x.deletedAt ≠ none → x.status ≠ .active

/-- A statement that leaves the accounts as they are, and adds no member. -/
theorem Consistent.of_same {s t : Tables} (h : Consistent s)
    (hmembers : ∀ w u, t.role w u ≠ none → s.role w u ≠ none)
    (husers : ∀ u, (t.users.get u).map (fun x => (x.status, x.deletedAt)) =
      (s.users.get u).map fun x => (x.status, x.deletedAt)) : Consistent t := by
  have hnone : ∀ u, t.users.get u = none ↔ s.users.get u = none := by
    intro u
    rw [← Option.map_eq_none_iff, husers, Option.map_eq_none_iff]
  refine ⟨fun w u hr hu => ?_, fun u x hx hdel hact => ?_⟩
  · exact h.members w u (hmembers w u hr) ((hnone u).mp hu)
  · have hu := husers u
    rw [hx] at hu
    cases hs : s.users.get u with
    | none => rw [hs] at hu; cases hu
    | some y =>
        rw [hs, Option.map_some, Option.map_some, Option.some.injEq, Prod.mk.injEq] at hu
        exact h.deleted u y hs (hu.2 ▸ hdel) (hu.1 ▸ hact)

/-- What an account is, for the memberships and the authority of others. -/
structure UserFact where
  status : AccountStatus
  globalRole : GlobalRole
  deletedAt : Option Timestamp
  membershipRevision : Nat

/-- The facts of an account. -/
def User.fact (u : User) : UserFact := ⟨u.status, u.globalRole, u.deletedAt, u.membershipRevision⟩

/-- A statement that touches none of the facts. It may delete a workspace. -/
structure SameFacts (s t : Tables) : Prop where
  deleted : ∀ w, s.isDeleted w = true → t.isDeleted w = true
  users : ∀ u, (t.users.get u).map User.fact = (s.users.get u).map User.fact
  snapshots : ∀ w, t.accessRevision w = s.accessRevision w
  members : ∀ w u, t.role w u = s.role w u
  links : ∀ w l, t.linkFact w l = s.linkFact w l
  audit : t.audit = s.audit

/-- A field of the facts stays with them. -/
theorem SameFacts.field {α : Type} {s t : Tables} (h : SameFacts s t) (f : UserFact → α)
    (u : String) : (t.users.get u).map (fun x => f x.fact) = (s.users.get u).map fun x => f x.fact := by
  have := congrArg (Option.map f) (h.users u)
  simpa [Option.map_map, Function.comp_def] using this

/-- Where the facts stay there is nothing to witness. -/
theorem Witness.of_same {s t : Tables} (h : SameFacts s t) : Witness s t := by
  have hstatus : ∀ u, t.status u = s.status u := h.field UserFact.status
  refine .of_counted (fun _ => false) (fun _ => false) h.deleted ?_ ?_ ?_ ?_
  · intro u
    have : t.membershipRevision u = s.membershipRevision u := h.field UserFact.membershipRevision u
    rw [this]
    simp
  · intro w
    rw [h.snapshots]
    simp
  · exact fun u _ => ⟨(hstatus u).symm, fun w => (h.members w u).symm⟩
  · refine fun w _ => ⟨fun u => ?_, fun l => (h.links w l).symm⟩
    simp only [Tables.memberFact, h.members, hstatus]

/-- **A statement that is counted**: what it changes is witnessed, and it writes no event. -/
structure Counted (s t : Tables) : Prop where
  consistent : Consistent t
  witness : Witness s t
  audit : t.audit = s.audit

theorem Counted.refl {s : Tables} (h : Consistent s) : Counted s s := ⟨h, .refl s, rfl⟩

/-- Counted changes follow one another. -/
theorem Counted.trans {s t u : Tables} (h : Counted s t) (h' : Counted t u) : Counted s u :=
  ⟨h'.consistent, h.witness.trans h'.witness, h'.audit.trans h.audit⟩

theorem Counted.of_same {s t : Tables} (hc : Consistent s) (h : SameFacts s t) : Counted s t :=
  ⟨hc.of_same (fun w u hr => by rwa [h.members] at hr) (h.field fun x => (x.status, x.deletedAt)),
    .of_same h, h.audit⟩

/-! ## 2. What the statements leave -/

section Spec

variable {T T' : Tables} {w u : String}

/-- The trigger advances one account. -/
theorem bumpMembership_eq (h : T.bumpMembership u = some T') : T' = { T with
    users := T.users.update (·.userId = u) User.bumpMembership User.bumpMembership_key } := by
  unfold Tables.bumpMembership at h
  split at h
  · cases h
  · exact (Option.some.inj h).symm

theorem bumpAccount_eq (h : T.bumpAccount u = some T') : T' = { T with
    users := T.users.update (·.userId = u) User.bumpAccount User.bumpAccount_key } := by
  unfold Tables.bumpAccount at h
  split at h
  · cases h
  · exact (Option.some.inj h).symm

/-- The trigger advances the workspaces it concerns. -/
theorem bumpAccess_eq {p : String → Bool} (h : T.bumpAccess p = some T') : T' = { T with
    snapshots := T.snapshots.update (fun s => p s.workspaceId) Snapshot.bumpAccess
      Snapshot.bumpAccess_key } := by
  unfold Tables.bumpAccess at h
  split at h
  · cases h
  · exact (Option.some.inj h).symm

/-- A change of a membership moves both revisions on, and nothing else. -/
theorem bumpMember_eq (h : T.bumpMember w u = some T') : T' = { T with
    users := T.users.update (·.userId = u) User.bumpMembership User.bumpMembership_key
    snapshots := T.snapshots.update (fun s => decide (s.workspaceId = w)) Snapshot.bumpAccess
      Snapshot.bumpAccess_key } := by
  unfold Tables.bumpMember at h
  obtain ⟨S, hS, h⟩ := Option.bind_eq_some_iff.mp h
  have hS := bumpMembership_eq hS
  have h := bumpAccess_eq h
  rw [h, hS]

theorem users_updated (users : Table User) (u : String) (f : User → User)
    (hf : ∀ x, Row.key (f x) = Row.key x) (x : String) :
    (users.update (·.userId = u) f hf).get x =
      if x = u then (users.get x).map f else users.get x :=
  Table.get_update_key hf u fun _ => rfl

theorem status_update {p : User → Bool} {f : User → User} (hf : ∀ x, Row.key (f x) = Row.key x)
    (hstatus : ∀ x, (f x).status = x.status) (users : Table User) :
    ((users.update p f hf).get u).map (·.status) = (users.get u).map (·.status) := by
  rw [Table.get_update, Option.map_map]
  congr 1
  funext x
  show (if p x = true then f x else x).status = x.status
  split
  · exact hstatus x
  · rfl

/-- The revision after it. -/
theorem membershipRevision_bump (users : Table User) :
    ((users.update (·.userId = w) User.bumpMembership User.bumpMembership_key).get u).map
        (·.membershipRevision) =
      ((users.get u).map (·.membershipRevision)).map fun n => if u = w then n + 1 else n := by
  rw [Table.get_update, Option.map_map, Option.map_map]
  cases hu : users.get u with
  | none => rfl
  | some x =>
      have hx : x.userId = u := (Table.get_some hu).2
      show some (if decide (x.userId = w) = true then x.bumpMembership else x).membershipRevision =
        some (if u = w then x.membershipRevision + 1 else x.membershipRevision)
      rw [hx]
      by_cases h : u = w
      · simp [h, User.bumpMembership]
      · simp [h]

/-- The revision after it. -/
theorem accessRevision_bump (p : String → Bool) (snapshots : Table Snapshot) :
    ((snapshots.update (fun s => p s.workspaceId) Snapshot.bumpAccess Snapshot.bumpAccess_key).get w).map
        (·.accessRevision) =
      ((snapshots.get w).map (·.accessRevision)).map fun n => if p w then n + 1 else n := by
  rw [Table.get_update, Option.map_map, Option.map_map]
  cases hw : snapshots.get w with
  | none => rfl
  | some x =>
      have hx : x.workspaceId = w := (Table.get_some hw).2
      show some (if p x.workspaceId = true then x.bumpAccess else x).accessRevision =
        some (if p w = true then x.accessRevision + 1 else x.accessRevision)
      rw [hx]
      by_cases h : p w = true
      · simp [h, Snapshot.bumpAccess]
      · simp [h]

end Spec

/-! ## 3. Members -/

section Members

variable {T T' : Tables} {w u : String}

/-- **A change of one membership is counted**, in the two revisions that move. -/
theorem bumpMember_counted {members : Table Member} (hc : Consistent T)
    (hmembers : ∀ w' u', (w', u') ≠ (w, u) → members.get (w', u') = T.members.get (w', u'))
    (hadded : members.get (w, u) ≠ none → T.users.get u ≠ none)
    (h : Tables.bumpMember { T with members } w u = some T') : Counted T T' := by
  have h := bumpMember_eq h
  have hstatus : ∀ u', T'.status u' = T.status u' := by
    intro u'
    rw [h]
    exact status_update User.bumpMembership_key (fun _ => rfl) T.users
  have hkept : Consistent { T with members } := by
    refine ⟨fun w' u' hr => ?_, hc.deleted⟩
    have hr : members.get (w', u') ≠ none := fun hnone => hr (by
      show (members.get (w', u')).map _ = none
      rw [hnone]
      rfl)
    by_cases hkey : (w', u') = (w, u)
    · obtain ⟨rfl, rfl⟩ := Prod.mk.inj hkey
      exact hadded hr
    · refine hc.members w' u' fun hnone => hr ?_
      rw [hmembers w' u' hkey]
      exact Option.map_eq_none_iff.mp hnone
  refine ⟨hkept.of_same (fun w' u' hr => by rw [h] at hr; exact hr) (fun x => ?_), ?_, by rw [h]⟩
  · rw [h]
    refine (congrArg _ (users_updated T.users u _ User.bumpMembership_key x)).trans ?_
    show _ = (T.users.get x).map _
    by_cases hx : x = u
    · rw [if_pos hx, Option.map_map]
      rfl
    · rw [if_neg hx]
  · refine .of_counted (fun u' => decide (u' = u)) (fun w' => decide (w' = w))
      (fun _ hd => by rw [h]; exact hd) ?_ ?_ ?_ ?_
    · intro u'
      rw [h]
      have := membershipRevision_bump (w := u) (u := u') T.users
      simpa [Tables.membershipRevision] using this
    · intro w'
      rw [h]
      exact accessRevision_bump (fun x => decide (x = w)) T.snapshots
    · intro u' hu'
      have hne : u' ≠ u := by simpa using hu'
      refine ⟨(hstatus u').symm, fun w' => ?_⟩
      have hkey : (w', u') ≠ (w, u) := fun h => hne (Prod.mk.inj h).2
      rw [h]
      show _ = (members.get (w', u')).map _
      rw [hmembers w' u' hkey]
      rfl
    · intro w' hw'
      have hne : w' ≠ w := by simpa using hw'
      refine ⟨fun u' => ?_, fun _ => by rw [h]; rfl⟩
      have hkey : (w', u') ≠ (w, u) := fun h => hne (Prod.mk.inj h).1
      unfold Tables.memberFact
      rw [hstatus u', h]
      show (T.role w' u').map _ = ((members.get (w', u')).map _).map _
      rw [hmembers w' u' hkey]
      rfl

/-- What the update of one membership leaves. -/
theorem members_updated {role : WorkspaceRole} (members : Table Member) (w' u' : String) :
    (members.update (fun m => m.workspaceId = w && m.userId = u) (·.withRole role)
        (Member.withRole_key role)).get (w', u') =
      if (w', u') = (w, u) then (members.get (w', u')).map (·.withRole role)
      else members.get (w', u') := by
  refine Table.get_update_key (Member.withRole_key role) (w, u) fun m => ?_
  show (decide (m.workspaceId = w) && decide (m.userId = u)) =
    decide ((m.workspaceId, m.userId) = (w, u))
  simp

/-- What the deletion of one membership leaves. -/
theorem members_deleted (members : Table Member) (w' u' : String) :
    (members.delete fun m => m.workspaceId = w && m.userId = u).get (w', u') =
      if (w', u') = (w, u) then none else members.get (w', u') := by
  rw [Table.get_delete]
  cases hm : members.get (w', u') with
  | none => by_cases hkey : (w', u') = (w, u) <;> simp [hkey]
  | some m =>
      have hm : (m.workspaceId, m.userId) = (w', u') := (Table.get_some hm).2
      rw [Prod.mk.injEq] at hm
      by_cases hkey : (w', u') = (w, u)
      · rw [if_pos hkey]
        rw [Prod.mk.injEq] at hkey
        simp [Option.filter, hm.1, hm.2, hkey]
      · rw [if_neg hkey]
        have hkey : ¬(w' = w ∧ u' = u) := fun h => hkey (Prod.mk.injEq .. ▸ h)
        simp [Option.filter, hm.1, hm.2, hkey]

/-- Each statement is counted: here a change of role. -/
theorem setMemberRole_counted {role : WorkspaceRole} (hc : Consistent T)
    (h : T.setMemberRole w u role = some T') : Counted T T' := by
  unfold Tables.setMemberRole at h
  split at h
  · cases h
    exact .refl hc
  · rename_i hrole
    simp only [Bool.or_eq_true, not_or, decide_eq_true_eq] at hrole
    refine bumpMember_counted hc (fun w' u' hne => ?_) (fun _ => hc.members w u hrole.1) h
    rw [members_updated, if_neg hne]

/-- A member who goes. -/
theorem deleteMember_counted (hc : Consistent T) (h : T.deleteMember w u = some T') :
    Counted T T' := by
  unfold Tables.deleteMember at h
  split at h
  · cases h
    exact .refl hc
  · rename_i hrole
    refine bumpMember_counted hc (fun w' u' hne => ?_) (fun _ => hc.members w u hrole) h
    rw [members_deleted, if_neg hne]

theorem insertCustody_eq (h : T.insertCustody w u = some T') :
    ∃ custody, T.custody.insert ⟨w, u⟩ = some custody ∧ T' = { T with custody } ∧
      T.custodianRefused w u = false ∧ (T.snapshots.get w).isSome = true := by
  unfold Tables.insertCustody at h
  split at h
  · cases h
  · rename_i hcond
    obtain ⟨custody, hc, h⟩ := Option.bind_eq_some_iff.mp h
    simp only [Bool.or_eq_true, not_or, Bool.not_eq_true, Option.isNone_eq_false_iff] at hcond
    exact ⟨custody, hc, (Option.some.inj h).symm, hcond.1.2, hcond.2⟩

theorem insertCustody_same (h : T.insertCustody w u = some T') : SameFacts T T' := by
  obtain ⟨custody, -, rfl, -, -⟩ := insertCustody_eq h
  exact ⟨fun _ h => h, fun _ => rfl, fun _ => rfl, fun _ _ => rfl, fun _ _ => rfl, rfl⟩

/-- An insertion of a member: the membership is counted, then custody may be assigned. -/
theorem insertMember_cases {m : Member} (h : T.insertMember m = some T') :
    ∃ members S, T.members.insert m = some members ∧ T.live m.userId = true ∧
      Tables.bumpMember { T with members } m.workspaceId m.userId = some S ∧
      (T' = S ∨ S.insertCustody m.workspaceId m.userId = some T') := by
  unfold Tables.insertMember at h
  split at h
  · cases h
  · rename_i hcond
    obtain ⟨members, hm, h⟩ := Option.bind_eq_some_iff.mp h
    obtain ⟨S, hS, h⟩ := Option.bind_eq_some_iff.mp h
    simp only [Tables.membershipRefused, Bool.or_eq_true, not_or, Bool.not_eq_true,
      Bool.not_eq_false'] at hcond
    refine ⟨members, S, hm, hcond.1.1, hS, ?_⟩
    split at h
    · exact .inr h
    · cases h
      exact .inl rfl

/-- A new member. -/
theorem insertMember_counted {m : Member} (hc : Consistent T)
    (h : T.insertMember m = some T') : Counted T T' := by
  obtain ⟨members, S, hm, hlive, hS, h⟩ := insertMember_cases h
  have hS : Counted T S := by
    refine bumpMember_counted hc (fun w' u' hne => ?_) (fun _ hnone => ?_) hS
    · rw [Table.get_insert hm]
      exact if_neg fun hkey => hne hkey.symm
    · rw [Tables.live, hnone] at hlive
      cases hlive
  rcases h with rfl | h
  · exact hS
  · exact hS.trans (.of_same hS.consistent (insertCustody_same h))

end Members

/-! ## 4. Accounts -/

/-- The row an update of an account leaves, its revisions counted on. -/
def UserChange.updated (c : UserChange) (old : User) : User :=
  let new := c.apply old
  { new with
    accountRevision := if accountChanged old new then old.accountRevision + 1
      else old.accountRevision
    membershipRevision := if old.status != new.status then old.membershipRevision + 1
      else old.membershipRevision }

section Accounts

variable {T T' : Tables} {w u : String} {c : UserChange}

/-- What an update of an account leaves, past its guards. -/
structure Updated (T : Tables) (u : String) (c : UserChange) (old : User) (T' : Tables) :
    Prop where
  before : T.users.get u = some old
  lastAdmin : T.lastAdmin old (c.apply old) = false
  finalOwner : T.finalOwner old (c.apply old) = false
  tables : ∃ users snapshots, T' = { T with users, snapshots }
  users : ∀ x, T'.users.get x = if x = u then some (c.updated old) else T.users.get x
  snapshots : ∀ x, T'.snapshots.get x = (T.snapshots.get x).map fun s =>
    if old.status != (c.apply old).status && (T.members.get (x, u)).isSome then s.bumpAccess else s

/-- **What an update of an account does.** -/
theorem updateUser_spec (h : T.updateUser u c = some T') :
    (T.users.get u = none ∧ T' = T) ∨ ∃ old, Updated T u c old T' := by
  unfold Tables.updateUser at h
  cases hold : T.users.get u with
  | none =>
      rw [hold] at h
      cases h
      exact .inl ⟨rfl, rfl⟩
  | some old =>
      rw [hold] at h
      refine .inr ⟨old, ?_⟩
      dsimp only at h
      split at h
      · cases h
      rename_i hguards
      simp only [Bool.or_eq_true, not_or, Bool.not_eq_true] at hguards
      obtain ⟨⟨hadmin, howner⟩, -⟩ := hguards
      obtain ⟨S, hS, h⟩ := Option.bind_eq_some_iff.mp h
      -- the row after the first two statements
      have hS : S = { T with users := S.users } ∧ ∀ x, S.users.get x =
          if x = u then some { c.apply old with
            accountRevision := if accountChanged old (c.apply old) then old.accountRevision + 1
              else old.accountRevision } else T.users.get x := by
        unfold Tables.countAccount at hS
        split at hS
        · rename_i hchanged
          have hS := bumpAccount_eq hS
          subst hS
          refine ⟨rfl, fun x => (users_updated _ u _ User.bumpAccount_key x).trans ?_⟩
          have hfirst := users_updated T.users u c.apply c.apply_key x
          by_cases hx : x = u
          · rw [if_pos hx, hx, hold] at hfirst
            rw [if_pos hx, if_pos hx, if_pos hchanged, hx]
            exact congrArg (Option.map User.bumpAccount) hfirst
          · rw [if_neg hx] at hfirst
            rw [if_neg hx, if_neg hx]
            exact hfirst
        · rename_i hchanged
          cases hS
          refine ⟨rfl, fun x => (users_updated _ u _ c.apply_key x).trans ?_⟩
          by_cases hx : x = u
          · rw [if_pos hx, if_pos hx, if_neg hchanged, hx, hold]
            rfl
          · rw [if_neg hx, if_neg hx]
      obtain ⟨hSeq, hSusers⟩ := hS
      unfold Tables.countStatus at h
      split at h
      · rename_i hstatus
        obtain ⟨R, hR, h⟩ := Option.bind_eq_some_iff.mp h
        have hR := bumpMembership_eq hR
        have h := bumpAccess_eq h
        subst hR
        subst h
        refine ⟨hold, hadmin, howner, ⟨_, _, by rw [hSeq]⟩, fun x => ?_, fun x => ?_⟩
        · refine (users_updated _ u _ User.bumpMembership_key x).trans ?_
          by_cases hx : x = u
          · rw [if_pos hx, if_pos hx, hSusers, if_pos hx, UserChange.updated, if_pos hstatus]
            rfl
          · rw [if_neg hx, if_neg hx, hSusers, if_neg hx]
        · refine (Table.get_update Snapshot.bumpAccess_key).trans ?_
          rw [hSeq]
          cases hx : T.snapshots.get x with
          | none => rfl
          | some s =>
              have hkey : s.workspaceId = x := (Table.get_some hx).2
              simp [hkey, hstatus]
      · rename_i hstatus
        cases h
        refine ⟨hold, hadmin, howner, ⟨_, _, by rw [hSeq]⟩, fun x => ?_, fun x => ?_⟩
        · rw [hSusers]
          by_cases hx : x = u
          · rw [if_pos hx, if_pos hx, UserChange.updated, if_neg hstatus]
            rfl
          · rw [if_neg hx, if_neg hx]
        · rw [hSeq]
          simp [hstatus]

theorem Updated.status {old : User} (h : Updated T u c old T') (x : String) :
    T'.status x = if x = u then some (c.apply old).status else T.status x := by
  unfold Tables.status
  rw [h.users]
  by_cases hx : x = u
  · simp [hx, UserChange.updated]
  · simp [hx]

/-- An update of an account is witnessed by its revision. -/
theorem Updated.witness {old : User} (hu : Updated T u c old T') : Witness T T' := by
  obtain ⟨users, snapshots, hT'⟩ := hu.tables
  have hrole : ∀ w x, T'.role w x = T.role w x := by
    intro w x
    rw [hT']
    rfl
  have hstatus : T.status u = some old.status := by
    unfold Tables.status
    rw [hu.before]
    rfl
  let changed := old.status != (c.apply old).status
  refine .of_counted (fun x => decide (x = u) && changed)
    (fun x => changed && (T.members.get (x, u)).isSome) (by rw [hT']; exact fun _ h => h)
    ?_ ?_ ?_ ?_
  · intro x
    unfold Tables.membershipRevision
    rw [hu.users]
    by_cases hx : x = u
    · simp [hx, hu.before, UserChange.updated, changed]
    · simp [hx, Function.comp_def]
  · intro x
    unfold Tables.accessRevision
    rw [hu.snapshots, Option.map_map, Option.map_map]
    congr 1
    funext s
    show Snapshot.accessRevision (if _ then _ else _) = _
    by_cases hx : (old.status != (c.apply old).status && (T.members.get (x, u)).isSome) = true
    · simp only [if_pos hx, changed, Function.comp_apply]
      rfl
    · simp only [if_neg hx, changed, Function.comp_apply]
  · intro x hx
    refine ⟨?_, fun w => (hrole w x).symm⟩
    rw [hu.status]
    by_cases hxu : x = u
    · have : old.status = (c.apply old).status := by simpa [hxu, changed] using hx
      rw [if_pos hxu, hxu, hstatus, this]
    · rw [if_neg hxu]
  · intro w hw
    refine ⟨fun x => ?_, fun l => by rw [hT']; rfl⟩
    unfold Tables.memberFact
    rw [hrole, hu.status]
    by_cases hxu : x = u
    · rw [if_pos hxu]
      simp only [changed, Bool.and_eq_false_iff, bne_eq_false_iff_eq] at hw
      rcases hw with hw | hw
      · rw [hxu, hstatus, ← hw]
      · have hnone : T.role w x = none := by
          unfold Tables.role
          rw [hxu]
          simpa using hw
        rw [hnone]
        rfl
    · rw [if_neg hxu]

/-- A change that keeps deleted accounts from being active. -/
def UserChange.Sound (c : UserChange) (T : Tables) (u : String) : Prop :=
  ∀ old, T.users.get u = some old → (c.apply old).deletedAt ≠ none → (c.apply old).status ≠ .active

/-- So it is counted. -/
theorem updateUser_counted (hc : Consistent T) (hsound : c.Sound T u)
    (h : T.updateUser u c = some T') : Counted T T' := by
  rcases updateUser_spec h with ⟨-, rfl⟩ | ⟨old, hu⟩
  · exact .refl hc
  obtain ⟨users, snapshots, hT'⟩ := hu.tables
  refine ⟨⟨fun w x hr => ?_, fun x y hy => ?_⟩, hu.witness, by rw [hT']⟩
  · rw [hu.users]
    by_cases hx : x = u
    · rw [if_pos hx]
      exact Option.some_ne_none _
    · rw [if_neg hx]
      rw [hT'] at hr
      exact hc.members w x hr
  · rw [hu.users] at hy
    by_cases hx : x = u
    · rw [if_pos hx, Option.some.injEq] at hy
      rw [← hy]
      exact hsound old hu.before
    · rw [if_neg hx] at hy
      exact hc.deleted x y hy

theorem insertUser_eq {x : User} (h : T.insertUser x = some T') :
    ∃ users, T.users.insert x = some users ∧ T' = { T with users } := by
  unfold Tables.insertUser at h
  split at h
  · cases h
  · obtain ⟨users, hu, h⟩ := Option.bind_eq_some_iff.mp h
    exact ⟨users, hu, (Option.some.inj h).symm⟩

/-- A new account is no one's member yet. -/
theorem insertUser_counted {x : User} (hc : Consistent T) (hx : x.deletedAt = none)
    (h : T.insertUser x = some T') : Counted T T' := by
  obtain ⟨users, hu, rfl⟩ := insertUser_eq h
  have hsame : ∀ y, T.users.get y ≠ none → users.get y = T.users.get y := by
    intro y hy
    rw [Table.get_insert hu]
    refine if_neg fun hkey => hy ?_
    rw [← hkey]
    exact Table.insert_new hu
  have hknown : ∀ y n, T.membershipRevision y = some n → users.get y = T.users.get y := by
    intro y n hn
    refine hsame y fun hnone => ?_
    rw [Tables.membershipRevision, hnone] at hn
    cases hn
  refine ⟨⟨fun w y hr => ?_, fun y z hz hdel => ?_⟩, ⟨fun _ h => h, fun w n hn => ?_,
    fun y n hn => ?_⟩, rfl⟩
  · have hy := hc.members w y hr
    exact hsame y hy ▸ hy
  · rw [Table.get_insert hu] at hz
    by_cases hy : Row.key x = y
    · rw [if_pos hy] at hz
      cases hz
      exact absurd hx hdel
    · rw [if_neg hy] at hz
      exact hc.deleted y z hz hdel
  · refine .inr ⟨n, hn, le_refl n, fun _ => ⟨fun y => ?_, fun _ => rfl⟩⟩
    show (T.role w y).map _ = (T.role w y).map _
    cases hr : T.role w y with
    | none => rfl
    | some r =>
        have hy := hsame y (hc.members w y (by rw [hr]; exact Option.some_ne_none r))
        show some (r, T.status y) = some (r, (users.get y).map _)
        rw [hy]
        rfl
  · refine ⟨n, ?_, le_refl n, fun _ => ⟨?_, fun _ => rfl⟩⟩
    · show (users.get y).map _ = some n
      rw [hknown y n hn, ← hn]
      rfl
    · show _ = (users.get y).map _
      rw [hknown y n hn]
      rfl

theorem bumpAccount_same (h : T.bumpAccount u = some T') : SameFacts T T' := by
  have h := bumpAccount_eq h
  subst h
  refine ⟨fun _ h => h, fun x => ?_, fun _ => rfl, fun _ _ => rfl, fun _ _ => rfl, rfl⟩
  refine (congrArg _ (users_updated T.users u _ User.bumpAccount_key x)).trans ?_
  by_cases hx : x = u
  · rw [if_pos hx, Option.map_map]
    rfl
  · rw [if_neg hx]

theorem deleteIdentity_same {i : Identity} (h : T.deleteIdentity i = some T') :
    SameFacts T T' := by
  obtain ⟨h₁, h₂, h₃, h₄, h₅, h₆⟩ := bumpAccount_same h
  exact ⟨h₁, h₂, h₃, h₄, h₅, h₆⟩

end Accounts

/-! ## 5. Guest links and workspaces -/

section Workspaces

variable {T T' : Tables} {w : String}

/-- **A change of the guest links of one workspace is counted.** -/
theorem bumpAccess_counted {guestLinks : Table GuestLink} (hc : Consistent T)
    (hlinks : ∀ w' l, w' ≠ w → Tables.linkFact { T with guestLinks } w' l = T.linkFact w' l)
    (h : Tables.bumpAccess { T with guestLinks } (fun w' => decide (w' = w)) = some T') :
    Counted T T' := by
  have h := bumpAccess_eq h
  refine ⟨hc.of_same (fun w' u hr => by rw [h] at hr; exact hr) (fun u => by rw [h]), ?_,
    by rw [h]⟩
  refine .of_counted (fun _ => false) (fun w' => decide (w' = w)) (fun _ hd => by rw [h]; exact hd)
    (fun u => ?_) (fun w' => ?_) (fun u _ => ?_) fun w' hw' => ?_
  · rw [h]
    show T.membershipRevision u = (T.membershipRevision u).map _
    simp
  · rw [h]
    exact accessRevision_bump (fun x => decide (x = w)) T.snapshots
  · rw [h]
    exact ⟨rfl, fun _ => rfl⟩
  · rw [h]
    exact ⟨fun _ => rfl, fun l => (hlinks w' l (by simpa using hw')).symm⟩

/-- An update of one guest link that leaves it in its workspace. -/
theorem linkFact_update {f : GuestLink → GuestLink} (hf : ∀ l, Row.key (f l) = Row.key l)
    (hworkspace : ∀ l, (f l).workspaceId = l.workspaceId) {link : GuestLink} {id : String}
    (hlink : T.guestLinks.get id = some link) {w' : String} (hw : w' ≠ link.workspaceId)
    (l : String) :
    Tables.linkFact { T with guestLinks := T.guestLinks.update (·.guestLinkId = id) f hf } w' l =
      T.linkFact w' l := by
  unfold Tables.linkFact
  have hget : (T.guestLinks.update (·.guestLinkId = id) f hf).get l =
      if l = id then (T.guestLinks.get l).map f else T.guestLinks.get l :=
    Table.get_update_key hf id fun _ => rfl
  show ((Table.get _ l).filter _).map _ = _
  rw [hget]
  by_cases hl : l = id
  · rw [if_pos hl, hl, hlink, Option.map_some]
    have h₁ : link.workspaceId ≠ w' := hw.symm
    have h₂ : (f link).workspaceId ≠ w' := by rw [hworkspace]; exact hw.symm
    simp [Option.filter, h₁, h₂]
  · rw [if_neg hl]

/-- A used link. -/
theorem consumeLink_counted {id redemptionId : String} {consumedAt : Timestamp}
    (hc : Consistent T) (h : T.consumeLink id consumedAt redemptionId = some T') :
    Counted T T' := by
  unfold Tables.consumeLink at h
  cases hlink : T.guestLinks.get id with
  | none =>
      rw [hlink] at h
      cases h
      exact .refl hc
  | some link =>
      rw [hlink] at h
      dsimp only at h
      split at h
      · cases h
      · exact bumpAccess_counted hc
          (fun w' l hw => linkFact_update (GuestLink.consumed_key consumedAt redemptionId)
            (fun _ => rfl) hlink hw l) h

/-- A revoked link. -/
theorem revokeLink_counted {id : String} {revokedAt : Timestamp} (hc : Consistent T)
    (h : T.revokeLink id revokedAt = some T') : Counted T T' := by
  unfold Tables.revokeLink at h
  cases hlink : T.guestLinks.get id with
  | none =>
      rw [hlink] at h
      cases h
      exact .refl hc
  | some link =>
      rw [hlink] at h
      exact bumpAccess_counted hc
        (fun w' l hw => linkFact_update (GuestLink.revoked_key revokedAt) (fun _ => rfl) hlink hw l) h

/-- A deleted link. -/
theorem deleteLink_counted {id : String} (hc : Consistent T) (h : T.deleteLink id = some T') :
    Counted T T' := by
  unfold Tables.deleteLink at h
  cases hlink : T.guestLinks.get id with
  | none =>
      rw [hlink] at h
      cases h
      exact .refl hc
  | some link =>
      rw [hlink] at h
      refine bumpAccess_counted hc (fun w' l hw => ?_) h
      show ((Table.get _ l).filter _).map _ = ((T.guestLinks.get l).filter _).map _
      rw [Table.get_delete]
      cases hl : T.guestLinks.get l with
      | none => rfl
      | some row =>
          have hkey : row.guestLinkId = l := (Table.get_some hl).2
          by_cases hid : l = id
          · have hrow : row = link := by
              rw [hid, hlink, Option.some.injEq] at hl
              exact hl.symm
            have hne : ¬link.workspaceId = w' := fun h => hw h.symm
            have hdeleted : link.guestLinkId = id := hrow ▸ hkey.trans hid
            simp [Option.filter, hrow, hne, hdeleted]
          · simp [Option.filter, hkey, hid]

/-- A new link. -/
theorem insertGuestLink_counted {link : GuestLink} (hc : Consistent T)
    (h : T.insertGuestLink link = some T') : Counted T T' := by
  unfold Tables.insertGuestLink at h
  split at h
  · cases h
  · obtain ⟨guestLinks, hl, h⟩ := Option.bind_eq_some_iff.mp h
    refine bumpAccess_counted hc (fun w' l hw => ?_) h
    show ((guestLinks.get l).filter _).map _ = ((T.guestLinks.get l).filter _).map _
    rw [Table.get_insert hl]
    by_cases hkey : Row.key link = l
    · have hnone := Table.insert_new hl
      rw [if_pos hkey, ← hkey, hnone]
      have hne : ¬link.workspaceId = w' := fun h => hw h.symm
      simp [Option.filter, hne]
    · rw [if_neg hkey]

/-- A new workspace. -/
theorem insertSnapshot_counted {snapshot : Snapshot} (hc : Consistent T)
    (h : T.insertSnapshot snapshot = some T') : Counted T T' := by
  obtain ⟨snapshots, hs, h⟩ := Option.bind_eq_some_iff.mp h
  cases h
  refine ⟨⟨hc.members, hc.deleted⟩, ⟨fun _ h => h, fun w n hn => ?_, fun u n hn =>
    ⟨n, hn, le_refl n, fun _ => .refl T u⟩⟩, rfl⟩
  refine .inr ⟨n, ?_, le_refl n, fun _ => .refl T w⟩
  show (snapshots.get w).map _ = some n
  rw [Table.get_insert hs, if_neg]
  · exact hn
  · intro hkey
    rw [Tables.accessRevision, ← hkey, Table.insert_new hs] at hn
    cases hn

theorem insertDeletion_same {deletion : Deletion} (h : T.insertDeletion deletion = some T') :
    SameFacts T T' := by
  obtain ⟨deletions, hd, h⟩ := Option.bind_eq_some_iff.mp h
  cases h
  refine ⟨fun w hw => ?_, fun _ => rfl, fun _ => rfl, fun _ _ => rfl, fun _ _ => rfl, rfl⟩
  show (deletions.get w).isSome = true
  rw [Table.get_insert hd]
  split
  · rfl
  · exact hw

theorem closeDeletion_same (T : Tables) (w : String) : SameFacts T (T.closeDeletion w) := by
  unfold Tables.closeDeletion
  split
  · split
    · refine ⟨fun w' hw => ?_, fun _ => rfl, fun _ => rfl, fun _ _ => rfl, fun _ _ => rfl, rfl⟩
      show (Table.get _ w').isSome = true
      rw [Table.get_update, Option.isSome_map]
      exact hw
    · exact ⟨fun _ h => h, fun _ => rfl, fun _ => rfl, fun _ _ => rfl, fun _ _ => rfl, rfl⟩
  · exact ⟨fun _ h => h, fun _ => rfl, fun _ => rfl, fun _ _ => rfl, fun _ _ => rfl, rfl⟩

/-- A snapshot is deleted where its workspace has a tombstone. -/
theorem deleteSnapshot_counted (hc : Consistent T) (hw : T.isDeleted w = true) :
    Counted T (T.deleteSnapshot w) := by
  refine ⟨⟨hc.members, hc.deleted⟩, ⟨fun _ h => h, fun w' n hn => ?_, fun u n hn =>
    ⟨n, hn, le_refl n, fun _ => .refl T u⟩⟩, rfl⟩
  by_cases hkey : w' = w
  · rw [hkey]
    exact .inl hw
  · refine .inr ⟨n, ?_, le_refl n, fun _ => .refl T w'⟩
    show ((T.snapshots.delete _).get w').map _ = some n
    rw [Table.get_delete]
    rw [Tables.accessRevision] at hn
    cases hs : T.snapshots.get w' with
    | none => rw [hs] at hn; cases hn
    | some s =>
        have : s.workspaceId ≠ w := fun h => hkey (by rw [← h]; exact (Table.get_some hs).2.symm)
        rw [← hn, hs]
        simp [Option.filter, this]

end Workspaces

end Stowplan.Governance
