/-
  File:      Stowplan/Governance/Commits.lean
  Subject:   WHAT EACH BATCH DOES, from any tables.

  * `Change`: what one statement does, with what its conditions have found;
  * `…statements_changes`: one lemma for each batch, which says what changes it is made of;
  * `Committed`: the revisions witness the changes, authority is kept, and events tell the roles;
  * `Change.committed`: one case for each change.
-/
import Stowplan.Governance.Owners
import Stowplan.Governance.SignIn
import Stowplan.Governance.Workspaces
import Mathlib.Logic.Relation

namespace Stowplan.Governance

open Tables

/-! ## 1. Changes -/

/-- The prior role that an event tells is the role in the tables. -/
def AuditEvent.Tells (T : Tables) (e : AuditEvent) : Prop :=
  match e.detail with
  | .memberRole fromRole _ targetUserId workspaceId => T.role workspaceId targetUserId = some fromRole
  | .memberRemove role targetUserId workspaceId => T.role workspaceId targetUserId = some role
  | .memberLeave role userId workspaceId => T.role workspaceId userId = some role
  | _ => True

/-- The event tells no prior role. -/
def AuditEvent.Silent (e : AuditEvent) : Prop := ∀ T, e.Tells T

/-- **What one statement does to one row**, where its conditions hold. A workspace comes with its
    custody. -/
inductive Change : Tables → Tables → Prop where
  | setMemberRole {S T : Tables} {w u : String} {role : WorkspaceRole}
      (hspare : role = .owner ∨ Spare S w u) (h : S.setMemberRole w u role = some T) : Change S T
  | deleteMember {S T : Tables} {w u : String} (hspare : Spare S w u)
      (h : S.deleteMember w u = some T) : Change S T
  | insertMember {S T : Tables} {m : Member} (h : S.insertMember m = some T) : Change S T
  | updateUser {S T : Tables} {u : String} {c : UserChange} (hkept : c.deletedAt = none)
      (hsound : c.Sound S u) (h : S.updateUser u c = some T) : Change S T
  | insertUser {S T : Tables} {u : User} (hkept : u.deletedAt = none)
      (h : S.insertUser u = some T) : Change S T
  | identities (S : Tables) (identities : Table Identity) : Change S { S with identities }
  | bumpAccount {S T : Tables} {u : String} (h : S.bumpAccount u = some T) : Change S T
  | revokeLink {S T : Tables} {id : String} {revokedAt : Timestamp}
      (h : S.revokeLink id revokedAt = some T) : Change S T
  | deleteLink {S T : Tables} {id : String} (h : S.deleteLink id = some T) : Change S T
  | allocate {S R T : Tables} {snapshot : Snapshot} {u : String}
      (hsnapshot : S.insertSnapshot snapshot = some R)
      (hcustody : R.insertCustody snapshot.workspaceId u = some T) : Change S T
  | insertDeletion {S T : Tables} {deletion : Deletion} (h : S.insertDeletion deletion = some T) :
      Change S T
  | closeDeletion (S : Tables) (w : String) : Change S (S.closeDeletion w)
  | content {S T : Tables} (c : ContentWrite) (h : S.updateState c = some T) : Change S T
  | sessions (S : Tables) (sessions : Table Session) : Change S { S with sessions }
  | banDigests (S : Tables) (banDigests : Table BanDigest) : Change S { S with banDigests }
  | allowance (S : Tables) (allowance : Allowance) : Change S { S with allowance }
  | log (S : Tables) {actor : Option String} {action target : String} {detail : AuditDetail}
      (hsilent : AuditEvent.Silent ⟨actor, action, target, detail⟩)
      (haccept : detail.acceptedLink = none) : Change S (S.log actor action target detail)

/-- Any number of changes. -/
abbrev Changes : Tables → Tables → Prop := Relation.ReflTransGen Change

/-- The changes of a batch, and an event at its end. -/
def Batched (P : AuditEvent → Prop) (S T : Tables) : Prop :=
  ∃ R, Changes S R ∧ (T = R ∨ ∃ e, P e ∧ T = { R with audit := R.audit ++ [e] })

/-- The changes of a batch, and a workspace with a tombstone that goes at its end. -/
def Concluded (S T : Tables) : Prop :=
  ∃ R, Changes S R ∧ (T = R ∨ ∃ w, R.isDeleted w = true ∧ T = R.deleteSnapshot w)

/-! ## 2. What changes keep -/

/-- **What a batch keeps**: the revisions witness it, authority is kept, and the events it writes
    are as they have to be. -/
structure Committed (P : AuditEvent → Prop) (s t : Tables) : Prop where
  consistent : Consistent t
  witness : Witness s t
  kept : Kept s t
  events : ∃ new, t.audit = s.audit ++ new ∧ ∀ e ∈ new, P e

section Kept

variable {P : AuditEvent → Prop} {S T R : Tables}

theorem Committed.refl (hc : Consistent S) : Committed P S S :=
  ⟨hc, .refl S, .refl S, [], (List.append_nil _).symm, by simp⟩

/-- Two committed changes are one. -/
theorem Committed.trans (h : Committed P S T) (h' : Committed P T R) : Committed P S R := by
  obtain ⟨new, hnew, hP⟩ := h.events
  obtain ⟨new', hnew', hP'⟩ := h'.events
  refine ⟨h'.consistent, h.witness.trans h'.witness, h.kept.trans h'.kept h'.witness.deleted,
    new ++ new', by rw [hnew', hnew, List.append_assoc], fun e he => ?_⟩
  rcases List.mem_append.mp he with he | he
  · exact hP e he
  · exact hP' e he

/-- Fewer events are asked about. -/
theorem Committed.mono {P' : AuditEvent → Prop} (hP : ∀ e, P e → P' e) (h : Committed P S T) :
    Committed P' S T := by
  obtain ⟨new, hnew, he⟩ := h.events
  exact ⟨h.consistent, h.witness, h.kept, new, hnew, fun e h => hP e (he e h)⟩

theorem Governed.committed (h : Governed S T) : Committed P S T :=
  ⟨h.counted.consistent, h.counted.witness, h.kept, [], by rw [h.counted.audit, List.append_nil],
    by simp⟩

/-- An event is written. -/
theorem committed_log (hc : Consistent S) {e : AuditEvent} (he : P e) :
    Committed P S { S with audit := S.audit ++ [e] } :=
  ⟨⟨hc.members, hc.deleted⟩, ⟨(Witness.refl S).deleted, (Witness.refl S).workspace,
    (Witness.refl S).account⟩, ⟨(Kept.refl S).owners, (Kept.refl S).admins⟩, [e], rfl,
    by simpa using he⟩

/-- What touches none of the facts. -/
theorem sameFacts_of_tables (husers : T.users = S.users) (hsnapshots : T.snapshots = S.snapshots)
    (hmembers : T.members = S.members) (hlinks : T.guestLinks = S.guestLinks)
    (hdeletions : T.deletions = S.deletions) (haudit : T.audit = S.audit) : SameFacts S T := by
  refine ⟨fun w hw => ?_, fun u => by rw [husers], fun w => ?_, fun w u => ?_, fun w l => ?_, haudit⟩
  · rw [Tables.isDeleted, hdeletions]
    exact hw
  · rw [Tables.accessRevision, hsnapshots]
    rfl
  · rw [Tables.role, hmembers]
    rfl
  · rw [Tables.linkFact, hlinks]
    rfl

/-- A content write changes nothing, or one snapshot. -/
theorem updateState_eq {c : ContentWrite} (h : S.updateState c = some T) :
    T = S ∨ T = { S with
      snapshots := S.snapshots.update (·.workspaceId = c.workspaceId) c.apply c.apply_key } := by
  unfold Tables.updateState at h
  split at h
  · dsimp only at h
    split at h
    · cases h
    · exact .inr (Option.some.inj h).symm
  · exact .inl (Option.some.inj h).symm

/-- It touches none of the facts. -/
theorem content_same {c : ContentWrite} (h : S.updateState c = some T) : SameFacts S T := by
  rcases updateState_eq h with rfl | rfl
  · exact sameFacts_of_tables rfl rfl rfl rfl rfl rfl
  refine ⟨fun _ h => h, fun _ => rfl, fun w => ?_, fun _ _ => rfl, fun _ _ => rfl, rfl⟩
  show ((S.snapshots.update _ c.apply c.apply_key).get w).map _ = (S.snapshots.get w).map _
  rw [Table.get_update, Option.map_map]
  congr 1
  funext s
  show Snapshot.accessRevision (if _ then _ else _) = _
  split <;> rfl

/-- **Each change** is counted, and keeps authority. -/
theorem Change.committed (hc : Consistent S) (h : Change S T) :
    Committed AuditEvent.Silent S T := by
  cases h with
  | setMemberRole hspare h =>
      rcases hspare with rfl | hspare
      · exact (setMemberRole_promoted hc h).committed
      · exact (setMemberRole_governed hc hspare h).committed
  | deleteMember hspare h => exact (deleteMember_governed hc hspare h).committed
  | insertMember h => exact (insertMember_governed hc h).committed
  | updateUser _ hsound h => exact (updateUser_governed hc hsound h).committed
  | insertUser hkept h => exact (insertUser_governed hc hkept h).committed
  | identities identities =>
      have h : SameFacts S { S with identities } := sameFacts_of_tables rfl rfl rfl rfl rfl rfl
      exact (Governed.of_same hc h).committed
  | bumpAccount h => exact (Governed.of_same hc (bumpAccount_same h)).committed
  | revokeLink h => exact (revokeLink_governed hc h).committed
  | deleteLink h => exact (deleteLink_governed hc h).committed
  | allocate hsnapshot hcustody =>
      have hR := insertSnapshot_governed hc hsnapshot
      exact (hR.trans (.of_same hR.counted.consistent (insertCustody_same hcustody))).committed
  | insertDeletion h => exact (Governed.of_same hc (insertDeletion_same h)).committed
  | closeDeletion w => exact (Governed.of_same hc (closeDeletion_same S w)).committed
  | content c h => exact (Governed.of_same hc (content_same h)).committed
  | sessions sessions =>
      have h : SameFacts S { S with sessions } := sameFacts_of_tables rfl rfl rfl rfl rfl rfl
      exact (Governed.of_same hc h).committed
  | banDigests banDigests =>
      have h : SameFacts S { S with banDigests } := sameFacts_of_tables rfl rfl rfl rfl rfl rfl
      exact (Governed.of_same hc h).committed
  | allowance allowance =>
      have h : SameFacts S { S with allowance } := sameFacts_of_tables rfl rfl rfl rfl rfl rfl
      exact (Governed.of_same hc h).committed
  | log hsilent _ => exact committed_log hc hsilent

/-- Changes without an event that speaks of a role are committed. -/
theorem Changes.committed (hc : Consistent S) (h : Changes S T) :
    Committed AuditEvent.Silent S T := by
  induction h with
  | refl => exact .refl hc
  | tail _ h ih => exact ih.trans (h.committed ih.consistent)

/-- So is a batch whose last event tells the truth. -/
theorem Batched.committed (hsilent : ∀ e, AuditEvent.Silent e → P e) (hc : Consistent S)
    (h : Batched P S T) : Committed P S T := by
  obtain ⟨R, hR, h⟩ := h
  have hR := (Changes.committed hc hR).mono hsilent
  rcases h with rfl | ⟨e, he, rfl⟩
  · exact hR
  · exact hR.trans (committed_log hR.consistent he)

theorem Changes.concluded (h : Changes S T) : Concluded S T := ⟨T, h, .inl rfl⟩

/-- So is the end of a deletion. -/
theorem Concluded.committed (hc : Consistent S) (h : Concluded S T) :
    Committed AuditEvent.Silent S T := by
  obtain ⟨R, hR, h⟩ := h
  have hR := Changes.committed hc hR
  rcases h with rfl | ⟨w, hw, rfl⟩
  · exact hR
  · exact hR.trans (deleteSnapshot_governed hR.consistent hw).committed

end Kept

section Batches

variable {T S T' : Tables}

/-- A statement over rows, with what holds of the tables meanwhile. -/
theorem forRows_changes {ρ : Type} {rows : List ρ} {statement : Tables → ρ → Option Tables}
    (I : Tables → Prop) (hI : I T)
    (hstatement : ∀ S S' r, r ∈ rows → I S → statement S r = some S' → Changes S S' ∧ I S')
    (h : T.forRows rows statement = some T') : Changes T T' ∧ I T' := by
  refine forRows_invariant (fun S => Changes T S ∧ I S) ⟨.refl, hI⟩ ?_ h
  rintro S S' r hr ⟨hS, hIS⟩ h
  obtain ⟨hS', hIS'⟩ := hstatement S S' r hr hIS h
  exact ⟨hS.trans hS', hIS'⟩

/-- A silent event is a change. -/
theorem log_change (S : Tables) {actor : Option String} {action target : String}
    {detail : AuditDetail} (hsilent : AuditEvent.Silent ⟨actor, action, target, detail⟩)
    (haccept : detail.acceptedLink = none) : Changes S (S.log actor action target detail) :=
  .single (.log S hsilent haccept)

/-- Each statement is a change of the tables: here a new identity. -/
theorem insertIdentity_changes {i : Identity} (h : T.insertIdentity i = some T') :
    Changes T T' := by
  unfold Tables.insertIdentity at h
  split at h
  · cases h
  · obtain ⟨identities, -, h⟩ := Option.bind_eq_some_iff.mp h
    exact .trans (.single (.identities T identities)) (.single (.bumpAccount h))

theorem deleteIdentity_changes {i : Identity} (h : T.deleteIdentity i = some T') :
    Changes T T' :=
  .trans (.single (.identities T _)) (.single (.bumpAccount h))

theorem deleteIdentities_changes {u : String} (h : T.deleteIdentities u = some T') :
    Changes T T' :=
  (forRows_changes (fun _ => True) trivial
    (fun _ _ _ _ _ h => ⟨deleteIdentity_changes h, trivial⟩) h).1

/-- Sessions that end. -/
theorem revokeSessions_changes (T : Tables) (at' : Timestamp) (p : String → Bool) :
    Changes T (T.revokeSessions at' p) := .single (.sessions T _)

/-- Links that are revoked. -/
theorem revokeLinks_changes {u : String} {at' : Timestamp}
    (h : T.revokeLinks u at' = some T') : Changes T T' :=
  (forRows_changes (fun _ => True) trivial
    (fun _ _ _ _ _ h => ⟨.single (.revokeLink h), trivial⟩) h).1

/-! ## 3. Members and guest links -/

/-- The batch of each operation: here a change of role, whose event has both roles. -/
theorem RoleChange.statements_batched (c : RoleChange) {P : AuditEvent → Prop}
    {fromRole : WorkspaceRole} (hc : Consistent T)
    (hP : c.allowed T = true → P ⟨some c.actorUserId, "member.role",
      membershipTargetId c.workspaceId c.targetUserId,
      .memberRole fromRole c.role c.targetUserId c.workspaceId⟩)
    (h : c.statements fromRole T = some T') : Batched P T T' := by
  unfold RoleChange.statements at h
  split at h
  · rename_i hallowed
    obtain ⟨S, hS, h⟩ := Option.bind_eq_some_iff.mp h
    cases h
    refine ⟨S, .single (.setMemberRole ?_ hS), .inr ⟨_, hP hallowed, rfl⟩⟩
    simp only [RoleChange.allowed, Bool.and_eq_true, Bool.or_eq_true, decide_eq_true_eq] at hallowed
    obtain ⟨⟨⟨⟨⟨⟨⟨hmember, -⟩, -⟩, -⟩, -⟩, -⟩, hspare⟩, -⟩ := hallowed
    exact hspare.imp_right (spareOwner_spare hc (Option.isSome_iff_ne_none.mp hmember))
  · cases h
    exact ⟨T, .refl, .inl rfl⟩

/-- The same change by an administrator. -/
theorem RoleChange.adminStatements_changes (c : RoleChange) (hc : Consistent T)
    (h : c.adminStatements T = some T') : Changes T T' := by
  unfold RoleChange.adminStatements at h
  split at h
  · rename_i hallowed
    obtain ⟨S, hS, h⟩ := Option.bind_eq_some_iff.mp h
    cases h
    refine .trans (.single (.setMemberRole ?_ hS)) (log_change S (fun _ => trivial) rfl)
    simp only [RoleChange.adminAllowed, Bool.and_eq_true, Bool.or_eq_true,
      decide_eq_true_eq] at hallowed
    obtain ⟨⟨⟨⟨⟨⟨⟨⟨hmember, -⟩, -⟩, hspare⟩, -⟩, -⟩, -⟩, -⟩, -⟩ := hallowed
    exact hspare.imp_right (spareOwner_spare hc (Option.isSome_iff_ne_none.mp hmember))
  · cases h
    exact .refl

/-- A removal, whose event has the role that is lost. -/
theorem MemberRemoval.statements_batched (c : MemberRemoval) {P : AuditEvent → Prop}
    {role : WorkspaceRole} (hc : Consistent T)
    (hP : c.allowed T = true → P ⟨some c.actorUserId, "member.remove",
      membershipTargetId c.workspaceId c.targetUserId,
      .memberRemove role c.targetUserId c.workspaceId⟩)
    (h : c.statements role T = some T') : Batched P T T' := by
  unfold MemberRemoval.statements at h
  split at h
  · rename_i hallowed
    obtain ⟨S, hS, h⟩ := Option.bind_eq_some_iff.mp h
    cases h
    refine ⟨S, .single (.deleteMember ?_ hS), .inr ⟨_, hP hallowed, rfl⟩⟩
    simp only [MemberRemoval.allowed, Bool.and_eq_true] at hallowed
    obtain ⟨⟨⟨⟨hmember, -⟩, -⟩, -⟩, hspare⟩ := hallowed
    exact spareOwner_spare hc (Option.isSome_iff_ne_none.mp hmember) hspare
  · cases h
    exact ⟨T, .refl, .inl rfl⟩

/-- The same removal by an administrator. -/
theorem MemberRemoval.adminStatements_changes (c : MemberRemoval) (hc : Consistent T)
    (h : c.adminStatements T = some T') : Changes T T' := by
  unfold MemberRemoval.adminStatements at h
  split at h
  · rename_i hallowed
    obtain ⟨S, hS, h⟩ := Option.bind_eq_some_iff.mp h
    cases h
    refine .trans (.single (.deleteMember ?_ hS)) (log_change S (fun _ => trivial) rfl)
    simp only [MemberRemoval.adminAllowed, Bool.and_eq_true] at hallowed
    obtain ⟨⟨⟨⟨⟨hmember, -⟩, hspare⟩, -⟩, -⟩, -⟩ := hallowed
    exact spareOwner_spare hc (Option.isSome_iff_ne_none.mp hmember) hspare
  · cases h
    exact .refl

/-- One owner for another: the target is promoted before the actor steps down. -/
theorem OwnershipTransfer.statements_changes (c : OwnershipTransfer) (hc : Consistent T)
    (h : c.statements T = some T') : Changes T T' := by
  unfold OwnershipTransfer.statements at h
  split at h
  · rename_i hallowed
    obtain ⟨S, hS, h⟩ := Option.bind_eq_some_iff.mp h
    obtain ⟨R, hR, h⟩ := Option.bind_eq_some_iff.mp h
    cases h
    have hspare : Spare S c.workspaceId c.actorUserId := by
      simp only [OwnershipTransfer.allowed, Tables.activeOwner, Bool.and_eq_true, bne_iff_ne,
        decide_eq_true_eq] at hallowed
      obtain ⟨⟨⟨⟨⟨⟨⟨-, hactor, -⟩, -⟩, hmember⟩, hnot⟩, -⟩, hactive⟩, -⟩ := hallowed
      have hne : c.targetUserId ≠ c.actorUserId := by
        intro heq
        rw [heq] at hnot
        exact hnot hactor
      refine .inr (.inr ⟨c.targetUserId, hne, ?_, ?_⟩)
      · rw [setMemberRole_role hS, if_pos rfl]
        obtain ⟨role, hrole⟩ := Option.isSome_iff_exists.mp hmember
        rw [hrole]
        rfl
      · rw [(setMemberRole_standing hS).live]
        exact hc.live_of_active hactive
    exact .trans (.trans (.single (.setMemberRole (.inl rfl) hS))
      (.single (.setMemberRole (.inr hspare) hR))) (log_change R (fun _ => trivial) rfl)
  · cases h
    exact .refl

/-- A member who leaves. -/
theorem Leave.statements_batched (c : Leave) {P : AuditEvent → Prop} {role : WorkspaceRole}
    (hc : Consistent T)
    (hP : c.allowed T = true → P ⟨some c.actorUserId, "member.leave",
      membershipTargetId c.workspaceId c.actorUserId,
      .memberLeave role c.actorUserId c.workspaceId⟩)
    (h : c.statements role T = some T') : Batched P T T' := by
  unfold Leave.statements at h
  split at h
  · rename_i hallowed
    obtain ⟨S, hS, h⟩ := Option.bind_eq_some_iff.mp h
    cases h
    refine ⟨S, .single (.deleteMember ?_ hS), .inr ⟨_, hP hallowed, rfl⟩⟩
    simp only [Leave.allowed, Bool.and_eq_true, Bool.or_eq_true, bne_iff_ne,
      decide_eq_true_eq] at hallowed
    obtain ⟨⟨⟨⟨hmember, -⟩, -⟩, -⟩, hspare⟩ := hallowed
    rcases hspare with hnot | hcount
    · exact .inr (.inl fun h => hnot h.1)
    · exact .inr (.inr (exists_otherOwner hc hcount (Option.isSome_iff_ne_none.mp hmember)))
  · cases h
    exact ⟨T, .refl, .inl rfl⟩

/-- A revoked link. -/
theorem GuestLinkRevocation.statements_changes (c : GuestLinkRevocation) {role : GuestRole}
    (h : c.statements role T = some T') : Changes T T' := by
  unfold GuestLinkRevocation.statements at h
  split at h
  · split at h
    · obtain ⟨S, hS, h⟩ := Option.bind_eq_some_iff.mp h
      cases h
      exact .trans (.single (.revokeLink hS)) (log_change S (fun _ => trivial) rfl)
    · cases h
      exact .refl
  · cases h
    exact .refl

theorem AdminLinkRevocation.statements_changes (c : AdminLinkRevocation)
    (h : c.statements T = some T') : Changes T T' := by
  unfold AdminLinkRevocation.statements at h
  split at h
  · split at h
    · obtain ⟨S, hS, h⟩ := Option.bind_eq_some_iff.mp h
      cases h
      exact .trans (.single (.revokeLink hS)) (log_change S (fun _ => trivial) rfl)
    · cases h
      exact .refl
  · cases h
    exact .refl

/-- A deleted link. -/
theorem AdminLinkDeletion.statements_changes (c : AdminLinkDeletion) {row : GuestLink}
    (h : c.statements row T = some T') : Changes T T' := by
  unfold AdminLinkDeletion.statements at h
  split at h
  · split at h
    · obtain ⟨S, hS, h⟩ := Option.bind_eq_some_iff.mp h
      cases h
      exact .trans (.single (.deleteLink hS)) (log_change S (fun _ => trivial) rfl)
    · cases h
      exact .refl
  · cases h
    exact .refl

theorem expiredLinks_changes {cutoff : Timestamp}
    (h : (T.forRows (T.expiredLinks cutoff) fun T l => T.deleteLink l.guestLinkId) = some T') :
    Changes T T' :=
  (forRows_changes (fun _ => True) trivial
    (fun _ _ _ _ _ h => ⟨.single (.deleteLink h), trivial⟩) h).1

/-! ### Creation and redemption -/

/-- A new link, or nothing. -/
theorem GuestLinkCreation.statements_cases (c : GuestLinkCreation)
    (h : c.statements T = some T') : T' = T ∨ ∃ S, T.insertGuestLink c.link = some S ∧
      T' = S.log (some c.actorUserId) "guest.create" c.guestLinkId
        (.guestCreate c.role c.expiresAt c.workspaceId) := by
  unfold GuestLinkCreation.statements at h
  split at h
  · obtain ⟨S, hS, h⟩ := Option.bind_eq_some_iff.mp h
    cases h
    exact .inr ⟨S, hS, rfl⟩
  · cases h
    exact .inl rfl

/-- A new link is committed. -/
theorem GuestLinkCreation.statements_committed (c : GuestLinkCreation) (hc : Consistent T)
    (h : c.statements T = some T') : Committed AuditEvent.Silent T T' := by
  rcases c.statements_cases h with rfl | ⟨S, hS, rfl⟩
  · exact .refl hc
  · have hS := (insertGuestLink_governed hc hS).committed (P := AuditEvent.Silent)
    exact hS.trans (committed_log hS.consistent fun _ => trivial)

/-- The statements of a redemption, each of which may find nothing to do. -/
theorem Redemption.statements_cases (c : Redemption) {row : GuestLink}
    (h : c.statements row T = some T') : ∃ S R,
      (S = T ∨ T.consumeLink row.guestLinkId c.at' c.redemptionId = some S) ∧
      (R = S ∨ ∃ m, S.insertMember m = some R) ∧
      (T' = R ∨ T' = R.log (some c.userId) "member.invite.accept" c.userId
        (.inviteAccept row.role row.guestLinkId row.workspaceId)) := by
  unfold Redemption.statements at h
  obtain ⟨S, hS, h⟩ := Option.bind_eq_some_iff.mp h
  obtain ⟨R, hR, h⟩ := Option.bind_eq_some_iff.mp h
  cases h
  refine ⟨S, R, ?_, ?_, ?_⟩
  · unfold Redemption.consume at hS
    split at hS
    · split at hS
      · exact .inr hS
      · cases hS
        exact .inl rfl
    · cases hS
      exact .inl rfl
  · unfold Redemption.join at hR
    split at hR
    · split at hR
      · exact .inr ⟨_, hR⟩
      · cases hR
        exact .inl rfl
    · cases hR
      exact .inl rfl
  · unfold Redemption.event
    split
    · split
      · exact .inr rfl
      · exact .inl rfl
    · exact .inl rfl

/-- So is a redemption. -/
theorem Redemption.statements_committed (c : Redemption) {row : GuestLink} (hc : Consistent T)
    (h : c.statements row T = some T') : Committed AuditEvent.Silent T T' := by
  obtain ⟨S, R, hS, hR, h⟩ := c.statements_cases h
  have hS : Governed T S := by
    rcases hS with rfl | hS
    · exact .refl hc
    · exact consumeLink_governed hc hS
  have hR : Governed T R := by
    rcases hR with rfl | ⟨m, hR⟩
    · exact hS
    · exact hS.trans (insertMember_governed hS.counted.consistent hR)
  rcases h with rfl | rfl
  · exact hR.committed
  · exact hR.committed.trans (committed_log hR.counted.consistent fun _ => trivial)

/-! ## 4. Workspaces -/

/-- A new workspace. -/
theorem Initialization.statements_changes (c : Initialization)
    (h : c.statements T = some T') : Changes T T' := by
  unfold Initialization.statements at h
  split at h
  · obtain ⟨S, hS, h⟩ := Option.bind_eq_some_iff.mp h
    obtain ⟨R, hR, h⟩ := Option.bind_eq_some_iff.mp h
    obtain ⟨Q, hQ, h⟩ := Option.bind_eq_some_iff.mp h
    cases h
    exact .trans (.trans (.single (.allocate hS hR)) (.single (.insertMember hQ)))
      (log_change Q (fun _ => trivial) rfl)
  · cases h
    exact .refl

/-- An administrator as an owner. -/
theorem upsertOwner_changes {w u : String} {createdAt : Timestamp}
    (h : T.upsertOwner w u createdAt = some T') : Changes T T' := by
  unfold Tables.upsertOwner at h
  split at h
  · exact .single (.insertMember h)
  · split at h
    · cases h
    · exact .single (.setMemberRole (.inl rfl) h)

/-- A takeover. -/
theorem Takeover.statements_changes (c : Takeover) (h : c.statements T = some T') :
    Changes T T' := by
  unfold Takeover.statements at h
  split at h
  · obtain ⟨S, hS, h⟩ := Option.bind_eq_some_iff.mp h
    have hS := upsertOwner_changes hS
    split at h
    · cases h
      exact hS
    · cases h
      exact hS.trans (log_change S (fun _ => trivial) rfl)
  · cases h
    exact .refl

theorem isDeleted_of_deletedBy {w id : String} (h : T.deletedBy w id = true) :
    T.isDeleted w = true := by
  unfold Tables.deletedBy at h
  unfold Tables.isDeleted
  cases hd : T.deletions.get w with
  | none => rw [hd] at h; cases h
  | some d => rfl

/-- A workspace goes: its links and members, then its snapshot, if it is still as confirmed. -/
theorem WorkspaceDeletion.purge_concluded (c : WorkspaceDeletion) (hc : Consistent T)
    (h : c.purge T = some T') : Concluded T T' := by
  unfold WorkspaceDeletion.purge at h
  split at h
  · rename_i hdeletion
    have hdeleted := isDeleted_of_deletedBy hdeletion
    obtain ⟨S, hS, h⟩ := Option.bind_eq_some_iff.mp h
    obtain ⟨R, hR, h⟩ := Option.bind_eq_some_iff.mp h
    obtain ⟨hS, -⟩ := forRows_changes (fun _ => True) trivial
      (fun S S' l _ _ h => ⟨.single (.deleteLink h), trivial⟩) hS
    have hS := (revokeSessions_changes T c.at' (T.guestOnly c.workspaceId)).trans hS
    have hdS := (Changes.committed hc hS).witness.deleted _ hdeleted
    obtain ⟨hR, hdR⟩ := forRows_changes (fun T => T.isDeleted c.workspaceId = true) hdS
      (fun S S' m hm hI h => by
        have hkey : m.workspaceId = c.workspaceId := by simpa using (List.mem_filter.mp hm).2
        refine ⟨.single (.deleteMember (.inl (by rw [hkey]; exact hI)) h), ?_⟩
        rw [Tables.isDeleted, (deleteMember_standing h).deletions]
        exact hI) hR
    dsimp only at h
    have hQ := (hS.trans hR).trans (.single (.closeDeletion R c.workspaceId))
    refine ⟨_, hQ, ?_⟩
    split at h
    · cases h
      exact .inr ⟨_, (closeDeletion_same R c.workspaceId).deleted _ hdR, rfl⟩
    · cases h
      exact .inl rfl
  · cases h
    exact ⟨T, .refl, .inl rfl⟩

/-- The tombstone of a workspace. -/
theorem WorkspaceDeletion.record_changes (c : WorkspaceDeletion) {allowed : Tables → Bool}
    {detail : AuditDetail} (hdetail : AuditEvent.Silent
      ⟨some c.actorUserId, "workspace.delete", c.workspaceId, detail⟩)
    (haccept : detail.acceptedLink = none)
    (h : c.record allowed detail T = some T') : Changes T T' := by
  unfold WorkspaceDeletion.record at h
  split at h
  · obtain ⟨R, hR, h⟩ := Option.bind_eq_some_iff.mp h
    cases h
    exact .trans (.single (.insertDeletion hR)) (log_change R hdetail haccept)
  · cases h
    exact .refl

/-- The deletion of a workspace. -/
theorem WorkspaceDeletion.statements_concluded (c : WorkspaceDeletion)
    {allowed : Tables → Bool} {detail : AuditDetail} (hdetail : AuditEvent.Silent
      ⟨some c.actorUserId, "workspace.delete", c.workspaceId, detail⟩)
    (haccept : detail.acceptedLink = none)
    (hc : Consistent T) (h : c.statements allowed detail T = some T') : Concluded T T' := by
  unfold WorkspaceDeletion.statements at h
  obtain ⟨S, hS, h⟩ := Option.bind_eq_some_iff.mp h
  have hS := c.record_changes hdetail haccept hS
  obtain ⟨R, hR, h⟩ := c.purge_concluded (Changes.committed hc hS).consistent h
  exact ⟨R, hS.trans hR, h⟩

/-! ## 5. Accounts -/

/-- A change that neither deletes an account nor makes it active. -/
theorem UserChange.sound_of_status {c : UserChange} {u : String} (status : AccountStatus)
    (hstatus : c.status = some status) (hne : status ≠ .active) : c.Sound T u := by
  intro old _ _
  show c.status.getD old.status ≠ .active
  rw [hstatus]
  exact hne

/-- A change of an account that is not deleted, and is not deleted by it. -/
theorem UserChange.sound_of_kept {c : UserChange} {u : String} (hdelete : c.deletedAt = none)
    (hold : ∀ old, T.users.get u = some old → old.deletedAt = none) : c.Sound T u := by
  intro old hget hdel
  refine absurd ?_ hdel
  show c.deletedAt.or old.deletedAt = none
  rw [hdelete, hold old hget]
  rfl

/-- A change of the global role. -/
theorem GlobalRoleChange.statements_changes (c : GlobalRoleChange)
    (h : c.statements T = some T') : Changes T T' := by
  unfold GlobalRoleChange.statements at h
  obtain ⟨S, hS, h⟩ := Option.bind_eq_some_iff.mp h
  have hS : Changes T S := by
    unfold GlobalRoleChange.update at hS
    split at hS
    · rename_i hallowed
      obtain ⟨R, hR, hS⟩ := Option.bind_eq_some_iff.mp hS
      cases hS
      refine .trans (.single (.updateUser rfl (UserChange.sound_of_kept rfl fun old hold => ?_) hR))
        (log_change R (fun _ => trivial) rfl)
      simp only [GlobalRoleChange.allowed, hold, Option.any_some, Bool.and_eq_true,
        Option.isNone_iff_eq_none] at hallowed
      exact hallowed.1.1.1.2
    · cases hS
      exact .refl
  split at h
  · cases h
    exact hS.trans (revokeSessions_changes S c.at' _)
  · cases h
    exact hS

/-- A change of the status. -/
theorem StatusChange.statements_changes (c : StatusChange) (h : c.statements T = some T') :
    Changes T T' := by
  unfold StatusChange.statements at h
  obtain ⟨S, hS, h⟩ := Option.bind_eq_some_iff.mp h
  have hS : Changes T S := by
    unfold StatusChange.update at hS
    split at hS
    · rename_i hallowed
      obtain ⟨R, hR, hS⟩ := Option.bind_eq_some_iff.mp hS
      cases hS
      refine .trans (.single (.updateUser rfl (UserChange.sound_of_kept rfl fun old hold => ?_) hR))
        (log_change R (fun _ => trivial) rfl)
      simp only [StatusChange.allowed, hold, Option.any_some, Bool.and_eq_true,
        Option.isNone_iff_eq_none] at hallowed
      exact hallowed.1.1.1.1.2
    · cases hS
      exact .refl
  split at h
  · exact hS.trans ((revokeSessions_changes S c.at' (· = c.targetUserId)).trans
      (revokeLinks_changes h))
  · cases h
    exact hS

/-- A ban. -/
theorem Ban.statements_changes (c : Ban) {digests : List String}
    (h : c.statements digests T = some T') : Changes T T' := by
  unfold Ban.statements at h
  obtain ⟨S, hS, h⟩ := Option.bind_eq_some_iff.mp h
  have hS : Changes T S := by
    unfold Ban.update at hS
    split at hS
    · exact .single (.updateUser rfl (UserChange.sound_of_status .banned rfl (by simp)) hS)
    · cases hS
      exact .refl
  split at h
  · unfold Ban.cleanup at h
    obtain ⟨R, hR, h⟩ := Option.bind_eq_some_iff.mp h
    obtain ⟨Q, hQ, h⟩ := Option.bind_eq_some_iff.mp h
    cases h
    exact .trans (.trans (.trans (.trans (hS.tail (.banDigests S _)) (deleteIdentities_changes hR))
      (revokeSessions_changes R c.at' (· = c.targetUserId))) (revokeLinks_changes hQ))
      (log_change Q (fun _ => trivial) rfl)
  · cases h
    exact hS

/-- The lift of a ban. -/
theorem Lift.statements_changes (c : Lift) (h : c.statements T = some T') : Changes T T' := by
  unfold Lift.statements at h
  obtain ⟨S, hS, h⟩ := Option.bind_eq_some_iff.mp h
  have hS : Changes T S := by
    unfold Lift.update at hS
    split at hS
    · exact .single (.updateUser rfl (UserChange.sound_of_status .disabled rfl (by simp)) hS)
    · cases hS
      exact .refl
  split at h
  · cases h
    exact .trans (hS.tail (.banDigests S _)) (log_change _ (fun _ => trivial) rfl)
  · cases h
    exact hS

theorem setCustodian_same {w u : String} (h : T.setCustodian w u = some T') : SameFacts T T' := by
  unfold Tables.setCustodian at h
  split at h
  · split at h
    · cases h
    · cases h
      exact sameFacts_of_tables rfl rfl rfl rfl rfl rfl
  · cases h
    exact sameFacts_of_tables rfl rfl rfl rfl rfl rfl

/-- A transfer of custody touches none of the facts. -/
theorem AccountDeletion.handOver_same (c : AccountDeletion) {t : CustodyTransfer}
    (h : c.handOver T t = some T') : SameFacts T T' := by
  unfold AccountDeletion.handOver at h
  split at h
  · exact setCustodian_same h
  · cases h
    exact sameFacts_of_tables rfl rfl rfl rfl rfl rfl

theorem AccountDeletion.handOvers_live (c : AccountDeletion) {transfers : List CustodyTransfer}
    (h : T.forRows transfers c.handOver = some T') (u : String) : T'.live u = T.live u :=
  forRows_invariant (fun S => S.live u = T.live u) rfl
    (fun _ _ _ _ hS h => ((c.handOver_same h).live u).trans hS) h

/-- Nor do all of them. -/
theorem AccountDeletion.handOvers_governed (c : AccountDeletion)
    {transfers : List CustodyTransfer} (hc : Consistent T)
    (h : T.forRows transfers c.handOver = some T') : Governed T T' :=
  forRows_invariant (Governed T) (.refl hc)
    (fun _ _ _ _ hS h => hS.trans (.of_same hS.counted.consistent (c.handOver_same h))) h

/-- What does not concern an account is as before: what is in custody, and the other members. -/
structure Beside (u : String) (S T : Tables) : Prop where
  custody : T.custody = S.custody
  bytes : ∀ w, T.storedBytes w = S.storedBytes w
  live : ∀ b, T.live b = S.live b
  role : ∀ w b, b ≠ u → T.role w b = S.role w b

theorem Beside.trans {u : String} {R : Tables} (h : Beside u S T) (h' : Beside u T R) :
    Beside u S R :=
  ⟨h'.custody.trans h.custody, fun w => (h'.bytes w).trans (h.bytes w),
    fun b => (h'.live b).trans (h.live b),
    fun w b hb => (h'.role w b hb).trans (h.role w b hb)⟩

theorem Beside.of_tables {u : String} (hcustody : T.custody = S.custody)
    (hsnapshots : T.snapshots = S.snapshots) (husers : T.users = S.users)
    (hmembers : T.members = S.members) : Beside u S T := by
  refine ⟨hcustody, fun w => ?_, fun b => ?_, fun w b _ => ?_⟩
  · rw [Tables.storedBytes, hsnapshots]
    rfl
  · rw [Tables.live, husers]
    rfl
  · rw [Tables.role, hmembers]
    rfl

theorem storedBytes_update {p : Snapshot → Bool} (snapshots : Table Snapshot) (w : String) :
    (((snapshots.update p Snapshot.bumpAccess Snapshot.bumpAccess_key).get w).map
      (·.storedBytes)).getD 0 = ((snapshots.get w).map (·.storedBytes)).getD 0 := by
  rw [Table.get_update, Option.map_map]
  congr 2
  funext s
  show Snapshot.storedBytes (if _ then _ else _) = _
  split <;> rfl

theorem revokeLink_beside {u id : String} {at' : Timestamp} (h : T.revokeLink id at' = some T') :
    Beside u T T' := by
  unfold Tables.revokeLink at h
  split at h
  · have h := bumpAccess_eq h
    subst h
    exact ⟨rfl, storedBytes_update T.snapshots, fun _ => rfl, fun _ _ _ => rfl⟩
  · cases h
    exact .of_tables rfl rfl rfl rfl

theorem deleteIdentity_beside {u : String} {i : Identity} (h : T.deleteIdentity i = some T') :
    Beside u T T' := by
  have hlive := (deleteIdentity_same h).live
  have h := bumpAccount_eq h
  subst h
  exact ⟨rfl, fun _ => rfl, hlive, fun _ _ _ => rfl⟩

theorem deleteMember_beside {w u : String} (h : T.deleteMember w u = some T') :
    Beside u T T' := by
  have hrole := deleteMember_role h
  have hlive := (deleteMember_standing h).live
  refine ⟨?_, fun x => ?_, hlive, fun x b hb => (hrole x b).trans (if_neg fun hkey => ?_)⟩
  · unfold Tables.deleteMember at h
    split at h
    · cases h
      rfl
    · have h := bumpMember_eq h
      subst h
      rfl
  · unfold Tables.deleteMember at h
    split at h
    · cases h
      rfl
    · have h := bumpMember_eq h
      subst h
      exact storedBytes_update T.snapshots x
  · exact hb (Prod.mk.inj hkey).2

theorem live_of_deletedAt {u : String} {at' : Timestamp} (h : T.deletedAt u at' = true) :
    T.live u = false := by
  unfold Tables.deletedAt at h
  unfold Tables.live
  cases hu : T.users.get u with
  | none => rfl
  | some x =>
      rw [hu] at h
      have hdel : x.deletedAt = some at' := by simpa using h
      simp [User.isLive, hdel]

/-- What follows the custody: an account that is no longer active takes its identities and its
    memberships along. -/
theorem AccountDeletion.cleanup_cases (c : AccountDeletion) {transfers : List CustodyTransfer}
    (hdead : T.live c.userId = false) (h : c.cleanup transfers T = some T') :
    ∃ R, T.forRows transfers c.handOver = some R ∧ Changes R T' ∧ Beside c.userId R T' := by
  unfold AccountDeletion.cleanup at h
  obtain ⟨R, hR, h⟩ := Option.bind_eq_some_iff.mp h
  obtain ⟨Q, hQ, h⟩ := Option.bind_eq_some_iff.mp h
  obtain ⟨P, hP, h⟩ := Option.bind_eq_some_iff.mp h
  obtain ⟨O, hO, h⟩ := Option.bind_eq_some_iff.mp h
  cases h
  have hdeadR : R.live c.userId = false := (c.handOvers_live hR c.userId).trans hdead
  refine ⟨R, hR, ?_⟩
  obtain ⟨hQ, hbesideQ⟩ := forRows_changes (fun X => Beside c.userId R X)
    (T := R.revokeSessions c.at' (· = c.userId)) (.of_tables rfl rfl rfl rfl)
    (fun X X' l _ hI h => ⟨.single (.revokeLink h), hI.trans (revokeLink_beside h)⟩) hQ
  obtain ⟨hP, hbesideP⟩ := forRows_changes (fun X => Beside c.userId R X) hbesideQ
    (fun X X' i _ hI h => ⟨deleteIdentity_changes h, hI.trans (deleteIdentity_beside h)⟩) hP
  obtain ⟨hO, hbesideO⟩ := forRows_changes (fun X => Beside c.userId R X) hbesideP
    (fun X X' m hm hI h => by
      have hkey : m.userId = c.userId := by simpa using (List.mem_filter.mp hm).2
      refine ⟨.single (.deleteMember (.inr (.inl fun h => ?_)) h),
        hI.trans (hkey ▸ deleteMember_beside h)⟩
      rw [hkey, hI.live, hdeadR] at h
      cases h.2) hO
  refine ⟨.trans (.trans (.trans (.trans (revokeSessions_changes R c.at' (· = c.userId)) hQ) hP) hO)
    (log_change O (fun _ => trivial) rfl), hbesideO.trans (.of_tables rfl rfl rfl rfl)⟩

/-- **An account is deleted**: its memberships go when it is no longer active, so that they make
    no workspace lose its last owner. -/
theorem AccountDeletion.statements_committed (c : AccountDeletion)
    {transfers : List CustodyTransfer} (hc : Consistent T)
    (h : c.statements transfers T = some T') : Committed AuditEvent.Silent T T' := by
  unfold AccountDeletion.statements at h
  obtain ⟨S, hS, h⟩ := Option.bind_eq_some_iff.mp h
  have hS : Governed T S := by
    unfold AccountDeletion.update at hS
    split at hS
    · exact updateUser_governed hc (UserChange.sound_of_status .disabled rfl (by simp)) hS
    · cases hS
      exact .refl hc
  split at h
  · rename_i hdeleted
    obtain ⟨R, hR, h, -⟩ := c.cleanup_cases (live_of_deletedAt hdeleted) h
    have hR := hS.trans (c.handOvers_governed hS.counted.consistent hR)
    exact hR.committed.trans (Changes.committed hR.counted.consistent h)
  · cases h
    exact hS.committed

/-! ## 6. Sign-ins -/

/-- A known identity that signs in. -/
theorem SignIn.touch_changes (c : SignIn) (h : c.touch T = some T') : Changes T T' := by
  unfold SignIn.touch at h
  split at h
  · unfold Tables.countAccount at h
    split at h
    · exact .trans (.single (.identities T _)) (.single (.bumpAccount h))
    · cases h
      exact .single (.identities T _)
  · cases h
    exact .refl

/-- An identity that is linked. -/
theorem SignIn.link_changes (c : SignIn) {intent : LinkIntent} (h : c.link intent T = some T') :
    Changes T T' := by
  unfold SignIn.link at h
  split at h
  · exact insertIdentity_changes h
  · cases h
    exact .refl

/-- A new account. -/
theorem SignIn.create_changes (c : SignIn) (h : c.create T = some T') : Changes T T' := by
  unfold SignIn.create at h
  obtain ⟨S, hS, h⟩ := Option.bind_eq_some_iff.mp h
  exact .trans (.single (.insertUser rfl hS)) (insertIdentity_changes h)

/-- A new session. -/
theorem SignIn.issue_changes (c : SignIn) {userId : String} (h : c.issue userId T = some T') :
    Changes T T' := by
  unfold SignIn.issue at h
  split at h
  · obtain ⟨S, hS, h⟩ := Option.bind_eq_some_iff.mp h
    cases h
    unfold Tables.insertSession at hS
    split at hS
    · cases hS
    · obtain ⟨sessions, -, hS⟩ := Option.bind_eq_some_iff.mp hS
      cases hS
      exact .trans (.single (.sessions T _)) (log_change _ (fun _ => trivial) rfl)
  · cases h
    exact .refl

end Batches

end Stowplan.Governance
