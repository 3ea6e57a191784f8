/-
  File:      Stowplan/Governance/Operations.lean
  Subject:   THE ACCESS OPERATIONS, in any interleaving.

  Operations start at any time, and take one statement or batch after another, each atomic, with
  those of others in between. What the limits of the installation allow, and what the workspaces
  contain, changes meanwhile.

  * `Operation.program`: what each operation executes;
  * `…_lawful`: an operation keeps what its batches keep, whatever that is;
  * `access_keepsAuthority`: no authority is lost between any two moments of a run;
  * `revisions_witness`: the revisions tell two moments apart.
-/
import Stowplan.Governance.Commits

namespace Stowplan.Governance

open Tables Program

/-! ## 1. Operations -/

/-- The operations that write accounts, memberships and workspaces. -/
inductive Operation where
  | create (c : Initialization)
  | consumeLink (c : Redemption)
  | createLink (c : GuestLinkCreation)
  | revokeLink (c : GuestLinkRevocation)
  | memberRole (c : RoleChange)
  | memberRemove (c : MemberRemoval)
  | ownershipTransfer (c : OwnershipTransfer)
  | memberLeave (c : Leave)
  | adminMemberRole (c : RoleChange)
  | adminMemberRemove (c : MemberRemoval)
  | takeover (c : Takeover)
  | globalRole (c : GlobalRoleChange)
  | status (c : StatusChange)
  | ban (c : Ban)
  | lift (c : Lift)
  | deleteAccount (c : AccountDeletion)
  | deleteWorkspace (c : WorkspaceDeletion) (expectedMembershipRevision : Nat)
  | adminDeleteWorkspace (c : WorkspaceDeletion)
  | signIn (c : SignIn)
  | linkIdentity (c : SignIn)
  | adminRevokeLink (c : AdminLinkRevocation)
  | adminDeleteLink (c : AdminLinkDeletion)
  | cleanupLinks (cutoff : Timestamp)
  | content (c : ContentWrite)
  | allowance (a : Allowance)

/-- The operation as reads and batches. -/
def Operation.program (digest : String → String → String) : Operation → Access Unit
  | .create c => initializeOwnedWorkspace c
  | .consumeLink c => consumeGuestLink c
  | .createLink c => createWorkspaceGuestLink c
  | .revokeLink c => revokeWorkspaceGuestLink c
  | .memberRole c => changeWorkspaceMemberRole c
  | .memberRemove c => removeWorkspaceMember c
  | .ownershipTransfer c => transferWorkspaceOwnership c
  | .memberLeave c => leaveWorkspace c
  | .adminMemberRole c => Governance.adminMemberRole c
  | .adminMemberRemove c => Governance.adminMemberRemove c
  | .takeover c => takeAdminWorkspaceOwnership c
  | .globalRole c => changeGlobalRole c
  | .status c => changeAccountStatus c
  | .ban c => banAccount digest c
  | .lift c => liftAccountBan c
  | .deleteAccount c => executeAccountDeletion c
  | .deleteWorkspace c expectedMembershipRevision =>
    deleteServerWorkspace c expectedMembershipRevision
  | .adminDeleteWorkspace c => deleteAdminWorkspace c
  | .signIn c => Governance.signIn digest c
  | .linkIdentity c => Governance.linkIdentity digest c
  | .adminRevokeLink c => Governance.adminRevokeLink c
  | .adminDeleteLink c => Governance.adminDeleteLink c
  | .cleanupLinks cutoff => cleanupGuestLinks cutoff
  | .content c => batch (·.updateState c)
  | .allowance a => batch fun T => some { T with allowance := a }

/-- The runs of the access operations. -/
def access (digest : String → String → String) : Machine (Pool Tables Label) (Option Label) :=
  interleavings Consistent fun p => ∃ operation : Operation, p = operation.program digest

/-! ## 2. The programs -/

section Lawful

variable {D : Discipline Tables Label}

theorem inaccessible_lawful {α : Type} {w u : String} :
    (inaccessible w u : Access α).Lawful D := by
  refine .bind .read fun b => ?_
  cases b <;> exact .fail

/-- An operation is lawful when its batches are: reads alone always are. -/
theorem workspaceContext_lawful {w u : String} : (workspaceContext w u).Lawful D := by
  refine .bind .read fun o => ?_
  cases o with
  | some context => exact .ret
  | none => exact inaccessible_lawful

theorem ownerContext_lawful {w u : String} : (ownerContext w u).Lawful D :=
  .bind workspaceContext_lawful fun _ => .bind .require fun _ => .ret

theorem assertOwnerPromotionQuota_lawful {u : String} :
    (assertOwnerPromotionQuota u).Lawful D :=
  .bind .read fun _ => .require

theorem membershipAdmissionRefusal_lawful {u : String} :
    (membershipAdmissionRefusal u).Lawful D :=
  .bind .read fun _ => .bind .require fun _ => .require

theorem assertPromotable_lawful {target : MemberRow} {u : String}
    {nextRole : Option WorkspaceRole} : (assertPromotable target u nextRole).Lawful D := by
  unfold assertPromotable
  split
  · exact .bind .require fun _ => assertOwnerPromotionQuota_lawful
  · exact .ret

theorem requireMember_lawful {w a u : String} : (requireMember w a u).Lawful D := by
  refine .bind .read fun o => ?_
  cases o with
  | some target => exact .ret
  | none => exact inaccessible_lawful

theorem requireActiveAdmin_lawful {a : String} : (requireActiveAdmin a).Lawful D :=
  .bind .read fun _ => .require

theorem explainMemberMutationRefusal_lawful {w a u : String} {n m : Nat}
    {nextRole : Option WorkspaceRole} :
    (explainMemberMutationRefusal w a u n m nextRole).Lawful D :=
  .bind ownerContext_lawful fun _ => .bind .require fun _ => .bind requireMember_lawful fun _ =>
    .bind assertPromotable_lawful fun _ => .bind .require fun _ => .ret

/-- A change of role. -/
theorem changeWorkspaceMemberRole_lawful {c : RoleChange}
    (h : ∀ role, (batch (c.statements role)).Lawful D) :
    (changeWorkspaceMemberRole c).Lawful D :=
  .bind explainMemberMutationRefusal_lawful fun _ => .bind .require fun _ =>
    .bind .require fun _ => h _

/-- A removal. -/
theorem removeWorkspaceMember_lawful {c : MemberRemoval}
    (h : ∀ role, (batch (c.statements role)).Lawful D) : (removeWorkspaceMember c).Lawful D :=
  .bind .require fun _ => .bind explainMemberMutationRefusal_lawful fun _ =>
    .bind .require fun _ => h _

/-- A transfer of ownership. -/
theorem transferWorkspaceOwnership_lawful {c : OwnershipTransfer}
    (h : (batch c.statements).Lawful D) : (transferWorkspaceOwnership c).Lawful D :=
  .bind .require fun _ => .bind ownerContext_lawful fun _ => .bind .require fun _ =>
    .bind .require fun _ => .bind .read? fun _ => .bind .require fun _ => .bind .require fun _ =>
      .bind .require fun _ => .bind assertOwnerPromotionQuota_lawful fun _ => h

/-- A member who leaves. -/
theorem leaveWorkspace_lawful {c : Leave} (h : ∀ role, (batch (c.statements role)).Lawful D) :
    (leaveWorkspace c).Lawful D :=
  .bind workspaceContext_lawful fun _ => .bind .require fun _ => .bind .require fun _ =>
    .bind .require fun _ => h _

/-- A new link. -/
theorem createWorkspaceGuestLink_lawful {c : GuestLinkCreation}
    (h : (batchAs (.invitation c.guestLinkId) c.statements).Lawful D) :
    (createWorkspaceGuestLink c).Lawful D :=
  .bind ownerContext_lawful fun _ => .bind .require fun _ => .bind .read fun _ =>
    .bind .require fun _ => h

/-- A revoked link. -/
theorem revokeWorkspaceGuestLink_lawful {c : GuestLinkRevocation}
    (h : ∀ role, (batch (c.statements role)).Lawful D) :
    (revokeWorkspaceGuestLink c).Lawful D :=
  .bind ownerContext_lawful fun _ => .bind .require fun _ => .bind .read? fun _ =>
    .bind .require fun _ => h _

/-- A redemption. -/
theorem consumeGuestLink_lawful {c : Redemption}
    (h : ∀ row, (batchAs (.redemption c.redemptionId) (c.statements row)).Lawful D) :
    (consumeGuestLink c).Lawful D :=
  .bind .read fun _ => .bind .require fun _ => .bind membershipAdmissionRefusal_lawful fun _ =>
    .bind .read? fun _ => h _

/-- A new workspace. -/
theorem initializeOwnedWorkspace_lawful {c : Initialization} (h : (batch c.statements).Lawful D) :
    (initializeOwnedWorkspace c).Lawful D := by
  refine .bind ?_ fun _ => .bind membershipAdmissionRefusal_lawful fun _ => h
  exact .bind .read fun _ => .bind .require fun _ => .bind .require fun _ =>
    .bind .require fun _ => .require

theorem adminWorkspaceContext_lawful {a w : String} : (adminWorkspaceContext a w).Lawful D := by
  refine .bind .read fun o => ?_
  cases o with
  | some context => exact .ret
  | none =>
      refine .bind .read fun _ => .bind .require fun _ => .bind .read fun b => ?_
      cases b <;> exact .fail

/-- A takeover. -/
theorem takeAdminWorkspaceOwnership_lawful {c : Takeover} (h : (batch c.statements).Lawful D) :
    (takeAdminWorkspaceOwnership c).Lawful D := by
  refine .bind adminWorkspaceContext_lawful fun _ => .bind .require fun _ =>
    .bind .require fun _ => .bind .read fun member => .bind ?_ fun _ => h
  cases member with
  | true => exact .ret
  | false => exact membershipAdmissionRefusal_lawful

/-- The deletion of a workspace by an owner. -/
theorem deleteServerWorkspace_lawful {c : WorkspaceDeletion} {m : Nat}
    (h : ∀ n, (batch (c.statements (c.byOwner m)
      (.workspaceDelete c.deletionId n none c.workspaceId))).Lawful D) :
    (deleteServerWorkspace c m).Lawful D :=
  .bind ownerContext_lawful fun _ => .bind .require fun _ => .bind .require fun _ =>
    .bind .require fun _ => .bind .require fun _ => h _

/-- The same by an administrator. -/
theorem deleteAdminWorkspace_lawful {c : WorkspaceDeletion}
    (h : ∀ n, (batch (c.statements (·.operator c.actorUserId)
      (.workspaceDelete c.deletionId n (some "global-admin") c.workspaceId))).Lawful D) :
    (deleteAdminWorkspace c).Lawful D :=
  .bind adminWorkspaceContext_lawful fun _ => .bind .require fun _ => .bind .require fun _ =>
    .bind .require fun _ => h _

theorem prepareAccountDeletion_lawful {u : String} : (prepareAccountDeletion u).Lawful D :=
  .bind .read? fun _ => .bind .read fun _ => .bind .read fun _ => .bind .read fun _ =>
    .bind .read fun _ => .ret

/-- The deletion of an account. -/
theorem executeAccountDeletion_lawful {c : AccountDeletion}
    (h : ∀ transfers : List CustodyTransfer,
      (batchAs (.deletion c.userId (transfers.map (·.workspaceId)))
        (c.statements transfers)).Lawful D) : (executeAccountDeletion c).Lawful D :=
  .bind .require fun _ => .bind .require fun _ => .bind prepareAccountDeletion_lawful fun _ =>
    .bind .require fun _ => .bind .require fun _ => h _

theorem accountRow_lawful {u : String} {n : Nat} : (accountRow u n).Lawful D :=
  .bind .read? fun _ => .bind .require fun _ => .ret

theorem assertNoAuthority_lawful {u : String} : (assertNoAuthority u).Lawful D :=
  .bind prepareAccountDeletion_lawful fun _ => .require

/-- A change of the global role. -/
theorem changeGlobalRole_lawful {c : GlobalRoleChange} (h : (batch c.statements).Lawful D) :
    (changeGlobalRole c).Lawful D :=
  .bind requireActiveAdmin_lawful fun _ => .bind accountRow_lawful fun _ =>
    .bind .require fun _ => h

/-- A change of the status. -/
theorem changeAccountStatus_lawful {c : StatusChange} (h : (batch c.statements).Lawful D) :
    (changeAccountStatus c).Lawful D := by
  refine .bind requireActiveAdmin_lawful fun _ => .bind accountRow_lawful fun _ =>
    .bind .require fun _ => .bind .require fun _ => .bind ?_ fun _ => h
  cases c.status with
  | active => exact .bind .read fun _ => .require
  | disabled => exact assertNoAuthority_lawful

theorem requireReason_lawful {value : String} : (requireReason value).Lawful D :=
  .bind .require fun _ => .ret

theorem assertActiveNoAuthority_lawful {target : User} :
    (assertActiveNoAuthority target).Lawful D := by
  unfold assertActiveNoAuthority
  split
  · exact assertNoAuthority_lawful
  · exact .ret

theorem assertEnforceable_lawful {u : String} {identities : List Identity} :
    (assertEnforceable u identities).Lawful D := by
  unfold assertEnforceable
  split
  · exact .bind .read fun _ => .require
  · exact .ret

/-- A ban. -/
theorem banAccount_lawful {digest : String → String → String} {c : Ban}
    (h : ∀ reason digests, (batchAs (.ban c.targetUserId)
      (Ban.statements { c with reason } digests)).Lawful D) : (banAccount digest c).Lawful D := by
  unfold banAccount
  refine .bind requireReason_lawful fun reason => .bind requireActiveAdmin_lawful fun _ =>
    .bind accountRow_lawful fun target => .bind .require fun _ => .bind .require fun _ =>
      .bind assertActiveNoAuthority_lawful fun _ => .bind .read fun identities =>
        .bind assertEnforceable_lawful fun _ => ?_
  exact h reason _

/-- The lift of a ban. -/
theorem liftAccountBan_lawful {c : Lift} (h : (batch c.statements).Lawful D) :
    (liftAccountBan c).Lawful D :=
  .bind requireActiveAdmin_lawful fun _ => h

theorem assertIdentityNotBanned_lawful {identityDigest : String} :
    (assertIdentityNotBanned identityDigest).Lawful D :=
  .bind .read fun _ => .require

theorem findLinkTarget_lawful {c : SignIn} : c.findLinkTarget.Lawful D := by
  unfold SignIn.findLinkTarget
  split
  · exact .bind .read? fun _ => .ret
  · exact .ret

/-- The account of a sign-in. -/
theorem createOrLinkUser_lawful {digest : String → String → String} {c : SignIn}
    (htouch : (batch c.touch).Lawful D)
    (hlink : ∀ intent, (batchAs (.register c.provider c.subject) (c.link intent)).Lawful D)
    (hcreate : (batchAs (.register c.provider c.subject) c.create).Lawful D) :
    (createOrLinkUser digest c).Lawful D := by
  unfold createOrLinkUser
  refine .bind .require fun _ => .bind assertIdentityNotBanned_lawful fun _ =>
    .bind findLinkTarget_lawful fun target => .bind .read fun o => ?_
  cases o with
  | some existing =>
      exact .bind .require fun _ => .bind .require fun _ => .bind .require fun _ =>
        .bind htouch fun _ => .ret
  | none =>
      refine .bind .require fun _ => ?_
      split
      · exact .bind (hlink _) fun _ => .bind .read fun _ => .bind .require fun _ => .ret
      · exact .bind .read fun _ => .bind .require fun _ => .bind .read fun _ =>
          .bind .require fun _ => .bind hcreate fun _ => .ret

/-- Its session. -/
theorem issueSession_lawful {c : SignIn} {u : String}
    (h : (batchAs (.session c.provider c.subject u) (c.issue u)).Lawful D) :
    (issueSession c u).Lawful D := by
  refine .bind ?_ fun _ => h
  exact .bind .read fun _ => .bind .require fun _ => .bind .require fun _ => .require

/-- **What every operation keeps**: a discipline that the batches keep. -/
theorem Operation.wp_of {digest : String → String → String}
    (hbatch : ∀ run, (∀ T T', Consistent T → run T = some T' → Concluded T T') →
      (batch run).Lawful D)
    (hlabelled : ∀ label run, label.ordinary = true →
      (∀ T T', run T = some T' → Changes T T') → (batchAs label run).Lawful D)
    (hinvite : ∀ c : GuestLinkCreation,
      (batchAs (.invitation c.guestLinkId) c.statements).Lawful D)
    (hredeem : ∀ (c : Redemption) row,
      (batchAs (.redemption c.redemptionId) (c.statements row)).Lawful D)
    (hrole : ∀ c s, (changeWorkspaceMemberRole c).wp D (fun _ _ => True) s)
    (hremove : ∀ c s, (removeWorkspaceMember c).wp D (fun _ _ => True) s)
    (hleave : ∀ c s, (leaveWorkspace c).wp D (fun _ _ => True) s)
    (hdelete : ∀ c s, (executeAccountDeletion c).wp D (fun _ _ => True) s)
    (operation : Operation) (s : Tables) :
    (operation.program digest).wp D (fun _ _ => True) s := by
  have hchanges : ∀ run, (∀ T T', Consistent T → run T = some T' → Changes T T') →
      (batch run).Lawful D := fun run h =>
    hbatch run fun T T' hc hrun => (h T T' hc hrun).concluded
  have hsignIn : ∀ c, (createOrLinkUser digest c).Lawful D := fun c =>
    createOrLinkUser_lawful (hchanges _ fun _ _ _ => c.touch_changes)
      (fun _ => hlabelled _ _ rfl fun _ _ => c.link_changes)
      (hlabelled _ _ rfl fun _ _ => c.create_changes)
  cases operation with
  | create c =>
      exact (initializeOwnedWorkspace_lawful (hchanges _ fun _ _ _ => c.statements_changes)).wp s
  | consumeLink c => exact (consumeGuestLink_lawful (hredeem c)).wp s
  | createLink c => exact (createWorkspaceGuestLink_lawful (hinvite c)).wp s
  | revokeLink c =>
      exact (revokeWorkspaceGuestLink_lawful fun _ =>
        hchanges _ fun _ _ _ => c.statements_changes).wp s
  | memberRole c => exact hrole c s
  | memberRemove c => exact hremove c s
  | ownershipTransfer c =>
      exact (transferWorkspaceOwnership_lawful (hchanges _ fun _ _ => c.statements_changes)).wp s
  | memberLeave c => exact hleave c s
  | adminMemberRole c =>
      exact (requireActiveAdmin_lawful.bind fun _ =>
        hchanges _ fun _ _ => c.adminStatements_changes).wp s
  | adminMemberRemove c =>
      exact (requireActiveAdmin_lawful.bind fun _ =>
        hchanges _ fun _ _ => c.adminStatements_changes).wp s
  | takeover c =>
      exact (takeAdminWorkspaceOwnership_lawful
        (hchanges _ fun _ _ _ => c.statements_changes)).wp s
  | globalRole c =>
      exact (changeGlobalRole_lawful (hchanges _ fun _ _ _ => c.statements_changes)).wp s
  | status c =>
      exact (changeAccountStatus_lawful (hchanges _ fun _ _ _ => c.statements_changes)).wp s
  | ban c =>
      exact (banAccount_lawful fun reason _ => hlabelled _ _ rfl fun _ _ =>
        Ban.statements_changes { c with reason }).wp s
  | lift c => exact (liftAccountBan_lawful (hchanges _ fun _ _ _ => c.statements_changes)).wp s
  | deleteAccount c => exact hdelete c s
  | deleteWorkspace c m =>
      exact (deleteServerWorkspace_lawful fun _ => hbatch _ fun _ _ hc =>
        c.statements_concluded (fun _ => trivial) rfl hc).wp s
  | adminDeleteWorkspace c =>
      exact (deleteAdminWorkspace_lawful fun _ => hbatch _ fun _ _ hc =>
        c.statements_concluded (fun _ => trivial) rfl hc).wp s
  | signIn c =>
      exact ((hsignIn c).bind fun _ => issueSession_lawful
        (hlabelled _ _ rfl fun _ _ => c.issue_changes)).wp s
  | linkIdentity c => exact ((hsignIn c).bind fun _ => .ret).wp s
  | adminRevokeLink c =>
      exact (requireActiveAdmin_lawful.bind fun _ =>
        hchanges _ fun _ _ _ => c.statements_changes).wp s
  | adminDeleteLink c =>
      exact (requireActiveAdmin_lawful.bind fun _ => .bind .read? fun _ =>
        hchanges _ fun _ _ _ => c.statements_changes).wp s
  | cleanupLinks cutoff => exact (hchanges _ fun _ _ _ => expiredLinks_changes).wp s
  | content c => exact (hchanges _ fun _ _ _ h => .single (.content c h)).wp s
  | allowance a =>
      refine (hchanges _ fun T T' _ h => ?_).wp s
      cases h
      exact .single (.allowance T a)

end Lawful

/-! ## 3. The discipline -/

/-- A batch leaves the tables to the others as they rely on them. -/
def accessDiscipline : Discipline Tables Label where
  inv := Consistent
  rely := fun s t => Witness s t ∧ Kept s t
  guarantee := fun _ s t => (Witness s t ∧ Kept s t) ∧
    ∃ new, t.audit = s.audit ++ new ∧ ∀ e ∈ new, e.Tells s
  ok := fun _ _ => True
  rely_refl := fun s => ⟨.refl s, .refl s⟩
  rely_trans := fun h h' => ⟨h.1.trans h'.1, h.2.trans h'.2 h'.1.deleted⟩
  rely_of_guarantee := fun h => h.1
  guarantee_refl := fun s => ⟨⟨.refl s, .refl s⟩, [], (List.append_nil _).symm, by simp⟩

/-- A batch that is committed keeps the discipline. -/
theorem committed_keeps {label : Option Label} {run : Tables → Option Tables}
    (h : ∀ T T', Consistent T → run T = some T' → Committed AuditEvent.Silent T T') :
    Program.Keeps accessDiscipline label fun T => (run T).map ((), ·) := by
  intro s hs _ b t hrun
  obtain ⟨T', hT', heq⟩ := Option.map_eq_some_iff.mp hrun
  cases heq
  have hc := h s t hs hT'
  obtain ⟨new, hnew, hsilent⟩ := hc.events
  exact ⟨hc.consistent, ⟨hc.witness, hc.kept⟩, new, hnew, fun e he => hsilent e he s⟩

/-! ### The prior role -/

/-- The role was read with the membership revision, and only the others have been at it since. -/
def RoleKnown (T : Tables) (w u : String) (role : WorkspaceRole) (revision : Nat) : Prop :=
  ∃ S, Witness S T ∧ S.role w u = some role ∧ S.membershipRevision u = some revision

/-- A role that was read stays known while the others go on. -/
theorem RoleKnown.stable {S T : Tables} {w u : String} {role : WorkspaceRole} {n : Nat}
    (h : RoleKnown S w u role n) (hr : accessDiscipline.rely S T) : RoleKnown T w u role n := by
  obtain ⟨R, hw, hrole, hn⟩ := h
  exact ⟨R, hw.trans hr.1, hrole, hn⟩

/-- **While the revision is the same, so is the role.** -/
theorem RoleKnown.role {T : Tables} {w u : String} {role : WorkspaceRole} {n : Nat}
    (h : RoleKnown T w u role n) (hn : T.membershipRevision u = some n) :
    T.role w u = some role := by
  obtain ⟨S, hw, hrole, hS⟩ := h
  obtain ⟨m, hm, -, hsame⟩ := hw.account u n hS
  rw [hn, Option.some.injEq] at hm
  rw [← (hsame hm.symm).2 w]
  exact hrole

theorem currentMember_some {T : Tables} {w u : String} {row : MemberRow}
    (h : T.currentMember w u = some row) :
    T.role w u = some row.role ∧ T.membershipRevision u = some row.membershipRevision := by
  obtain ⟨role, hrole, h⟩ := Option.bind_eq_some_iff.mp h
  obtain ⟨user, huser, h⟩ := Option.bind_eq_some_iff.mp h
  cases h
  refine ⟨hrole, ?_⟩
  rw [Tables.membershipRevision, huser]
  rfl

theorem contextRow_some {T : Tables} {w u : String} {row : WorkspaceContext}
    (h : T.contextRow w u = some row) :
    T.role w u = some row.role ∧ T.membershipRevision u = some row.membershipRevision := by
  obtain ⟨snapshot, -, h⟩ := Option.bind_eq_some_iff.mp h
  obtain ⟨role, hrole, h⟩ := Option.bind_eq_some_iff.mp h
  obtain ⟨user, huser, h⟩ := Option.bind_eq_some_iff.mp h
  split at h
  · cases h
    refine ⟨hrole, ?_⟩
    rw [Tables.membershipRevision, huser]
    rfl
  · cases h

section Known

variable {w a u : String} {n m : Nat} {s : Tables}

theorem inaccessible_wp {α : Type} {D : Discipline Tables Label} {Q : α → Tables → Prop} :
    (inaccessible w u : Access α).wp D Q s := by
  refine (wp_bind _ _ _ s).mpr (wp_read fun t _ _ => ?_)
  split <;> exact wp_fail

/-- What is read of a member is known afterwards. -/
theorem requireMember_wp : (requireMember w a u).wp accessDiscipline
    (fun target t => RoleKnown t w u target.role target.membershipRevision) s := by
  refine (wp_bind _ _ _ s).mpr (wp_read fun t _ _ => ?_)
  cases hrow : t.currentMember w u with
  | some target =>
      obtain ⟨hrole, hrevision⟩ := currentMember_some hrow
      exact wp_ret ⟨t, .refl t, hrole, hrevision⟩
  | none => exact inaccessible_wp

/-- So is what is read of the caller. -/
theorem workspaceContext_wp : (workspaceContext w u).wp accessDiscipline
    (fun context t => RoleKnown t w u context.role context.membershipRevision) s := by
  refine (wp_bind _ _ _ s).mpr (wp_read fun t _ _ => ?_)
  cases hrow : t.contextRow w u with
  | some context =>
      obtain ⟨hrole, hrevision⟩ := contextRow_some hrow
      exact wp_ret ⟨t, .refl t, hrole, hrevision⟩
  | none => exact inaccessible_wp

/-- So are both. -/
theorem explainMemberMutationRefusal_wp {nextRole : Option WorkspaceRole} :
    (explainMemberMutationRefusal w a u n m nextRole).wp accessDiscipline
      (fun r t => RoleKnown t w u r.2.role m) s := by
  refine (wp_bind _ _ _ s).mpr (wp_mono (ownerContext_lawful.wp s) fun context t _ => ?_)
  refine (wp_bind _ _ _ t).mpr (wp_require fun _ => ?_)
  refine (wp_bind _ _ _ t).mpr (wp_mono requireMember_wp fun target t htarget => ?_)
  refine (wp_bind _ _ _ t).mpr (wp_mono
    (assertPromotable_lawful.wp_stable RoleKnown.stable htarget) fun _ t htarget => ?_)
  refine (wp_bind _ _ _ t).mpr (wp_require fun hrevision => ?_)
  rw [decide_eq_true_eq] at hrevision
  exact wp_ret (hrevision ▸ htarget)

/-- The batch at the end, that finds the revision with which the role was read. -/
theorem batch_wp {run : Tables → Option Tables} {role : WorkspaceRole} {revision : Nat}
    (hknown : RoleKnown s w u role revision)
    (h : ∀ T T', Consistent T → (T.membershipRevision u = some revision →
      T.role w u = some role) → run T = some T' → Batched (AuditEvent.Tells T) T T') :
    (batch run).wp accessDiscipline (fun _ _ => True) s := by
  refine wp_exec fun t hr hi _ b t' hrun => ?_
  obtain ⟨T', hT', heq⟩ := Option.map_eq_some_iff.mp hrun
  cases heq
  have hc := (h t _ hi (hknown.stable hr).role hT').committed (fun e he => he t) hi
  exact ⟨hc.consistent, ⟨⟨hc.witness, hc.kept⟩, hc.events⟩, trivial⟩

end Known

/-- The event of a change of role therefore has the role before it. -/
theorem changeWorkspaceMemberRole_wp (c : RoleChange) (s : Tables) :
    (changeWorkspaceMemberRole c).wp accessDiscipline (fun _ _ => True) s := by
  refine (wp_bind _ _ _ s).mpr (wp_mono explainMemberMutationRefusal_wp fun r t hknown => ?_)
  refine (wp_bind _ _ _ t).mpr (wp_require fun _ => ?_)
  refine (wp_bind _ _ _ t).mpr (wp_require fun _ => ?_)
  refine batch_wp hknown fun T T' hc hrole h => c.statements_batched hc (fun hallowed => ?_) h
  simp only [RoleChange.allowed, Bool.and_eq_true, decide_eq_true_eq] at hallowed
  exact hrole hallowed.1.1.1.2

/-- So has that of a removal. -/
theorem removeWorkspaceMember_wp (c : MemberRemoval) (s : Tables) :
    (removeWorkspaceMember c).wp accessDiscipline (fun _ _ => True) s := by
  refine (wp_bind _ _ _ s).mpr (wp_require fun _ => ?_)
  refine (wp_bind _ _ _ s).mpr (wp_mono explainMemberMutationRefusal_wp fun r t hknown => ?_)
  refine (wp_bind _ _ _ t).mpr (wp_require fun _ => ?_)
  refine batch_wp hknown fun T T' hc hrole h => c.statements_batched hc (fun hallowed => ?_) h
  simp only [MemberRemoval.allowed, Bool.and_eq_true, decide_eq_true_eq] at hallowed
  exact hrole hallowed.1.2

/-- So has that of a member who leaves. -/
theorem leaveWorkspace_wp (c : Leave) (s : Tables) :
    (leaveWorkspace c).wp accessDiscipline (fun _ _ => True) s := by
  refine (wp_bind _ _ _ s).mpr (wp_mono workspaceContext_wp fun context t hknown => ?_)
  refine (wp_bind _ _ _ t).mpr (wp_require fun _ => ?_)
  refine (wp_bind _ _ _ t).mpr (wp_require fun hrevision => ?_)
  refine (wp_bind _ _ _ t).mpr (wp_require fun _ => ?_)
  rw [decide_eq_true_eq] at hrevision
  refine batch_wp hknown fun T T' hc hrole h => c.statements_batched hc (fun hallowed => ?_) h
  simp only [Leave.allowed, Bool.and_eq_true, decide_eq_true_eq] at hallowed
  exact hrole (hrevision ▸ hallowed.1.2)

/-- **Every operation leaves the tables as the others rely on them**, and its events tell the
    roles. -/
theorem Operation.wp (digest : String → String → String) (operation : Operation) (s : Tables) :
    (operation.program digest).wp accessDiscipline (fun _ _ => True) s := by
  refine operation.wp_of (fun run h => .exec (committed_keeps fun T T' hc hrun =>
    (h T T' hc hrun).committed hc)) (fun label run _ h => .execAs (committed_keeps
      fun T T' hc hrun => (h T T' hrun).committed hc))
        (fun c => .execAs (committed_keeps fun _ _ => c.statements_committed))
        (fun c _ => .execAs (committed_keeps fun _ _ => c.statements_committed))
        changeWorkspaceMemberRole_wp
        removeWorkspaceMember_wp leaveWorkspace_wp (fun c s => ?_) s
  exact (executeAccountDeletion_lawful fun _ =>
    .execAs (committed_keeps fun _ _ => c.statements_committed)).wp s

/-! ## 4. Any two moments of a run -/

section Runs

variable {digest : String → String → String} {P R : Pool Tables Label}
  {labels : List (Option Label)}

/-- Every reachable pool keeps the discipline. -/
theorem access_sound (hP : (access digest).Reachable P) : Sound accessDiscipline P := by
  obtain ⟨P₀, labels, hinit, hrun⟩ := hP
  refine reachable_sound (fun _ h => h) ?_ ⟨P₀, labels, hinit, hrun.restrict fun _ _ => trivial⟩
  rintro p ⟨operation, rfl⟩ s -
  exact operation.wp digest s

/-- From one to a later one, revisions witness what changed. -/
theorem access_rely (hP : (access digest).Reachable P) (h : (access digest).Run P labels R) :
    Witness P.store R.store ∧ Kept P.store R.store := by
  refine (run_rely ?_ (access_sound hP) (h.restrict fun _ _ => trivial)).2
  rintro p ⟨operation, rfl⟩ s -
  exact operation.wp digest s

/-! ### Two owners who leave -/

/-- No limit of the installation refuses anything. -/
def openAllowance : Allowance := ⟨true, fun _ => true, fun _ => true, true, fun _ => true, true⟩

/-- An active account. -/
def person (userId : String) (globalRole : GlobalRole) : User where
  userId
  email := userId ++ "@example.org"
  displayName := userId
  globalRole
  status := .active
  accountRevision := 0
  membershipRevision := 0
  updatedAt := "2026-01-01T00:00:00.000Z"
  deletedAt := none

/-- An administrator, and a workspace with two owners. -/
def sharedWorkspace : Tables where
  users := ⟨[person "root" .admin, person "ann" .user, person "bob" .user], by decide +kernel⟩
  identities := .empty
  sessions := .empty
  snapshots := ⟨[⟨"w", 1, 0, "Home", "{}", 2⟩], by decide +kernel⟩
  members := ⟨[⟨"w", "ann", .owner, "2026-01-01T00:00:00.000Z"⟩,
    ⟨"w", "bob", .owner, "2026-01-01T00:00:00.000Z"⟩], by decide +kernel⟩
  guestLinks := .empty
  deletions := .empty
  custody := ⟨[⟨"w", "ann"⟩], by decide +kernel⟩
  banDigests := .empty
  audit := []
  allowance := openAllowance

/-- A member leaves the workspace `w`. -/
def leave (userId : String) : Operation := .memberLeave ⟨"w", userId, 0, 0⟩

/-- A digest that tells a provider from a subject. -/
def markedDigest (provider subject : String) : String := provider ++ "/" ++ subject

/-- Two owners leave at the same time: each reads before either writes. -/
def bothLeave : List (Pool.Turn Tables Label) :=
  [.start ((leave "ann").program markedDigest), .start ((leave "bob").program markedDigest),
    .run 0, .run 1, .run 0, .run 1]

/-- The rows say whether the tables are consistent. -/
theorem Consistent.of_rows {T : Tables}
    (hmembers : ∀ m ∈ T.members.rows, (T.users.get m.userId).isSome = true)
    (husers : ∀ x ∈ T.users.rows, x.deletedAt = none) : Consistent T := by
  refine ⟨fun w u hr hu => ?_, fun u x hx hdel => absurd (husers x (Table.get_some hx).1) hdel⟩
  obtain ⟨role, hrole⟩ := Option.ne_none_iff_exists'.mp hr
  obtain ⟨m, hm, -⟩ := role_some_iff.mp hrole
  have hkey : (m.workspaceId, m.userId) = (w, u) := (Table.get_some hm).2
  have := hmembers m (Table.get_some hm).1
  rw [(Prod.mk.inj hkey).2, hu] at this
  cases this

theorem sharedWorkspace_reachable :
    (access markedDigest).Reachable ⟨sharedWorkspace, []⟩ :=
  ⟨_, [], ⟨.of_rows (by decide +kernel) (by decide +kernel), rfl⟩, .nil _⟩

theorem bothLeave_follows :
    (Pool.follow ⟨sharedWorkspace, []⟩ bothLeave).isSome = true := by decide +kernel

theorem bothLeave_run {R : Pool Tables Label}
    (h : Pool.follow ⟨sharedWorkspace, []⟩ bothLeave = some R) :
    ∃ labels, (access markedDigest).Run ⟨sharedWorkspace, []⟩ labels R := by
  refine Pool.follow_run (fun p hp => ?_) h
  simp only [bothLeave, List.mem_cons, List.not_mem_nil, or_false, reduceCtorEq,
    Pool.Turn.start.injEq] at hp
  rcases hp with rfl | rfl
  · exact ⟨leave "ann", rfl⟩
  · exact ⟨leave "bob", rfl⟩

/-- **AUTHORITY IS NEVER LOST**: between any two moments of a run, a workspace with an active
    owner keeps one whose account is active and not deleted, unless it is deleted itself; and
    once there is an active administrator, there is one. -/
theorem access_keepsAuthority (hP : (access digest).Reachable P)
    (h : (access digest).Run P labels R) :
    (∀ w, (∃ u, P.store.role w u = some .owner ∧ P.store.active u = true) →
      R.store.isDeleted w = true ∨
        ∃ u, R.store.role w u = some .owner ∧ R.store.live u = true) ∧
    ((∃ u, P.store.activeAdmin u = true) → ∃ u, R.store.activeAdmin u = true) := by
  have hkept := (access_rely hP h).2
  refine ⟨?_, hkept.admins⟩
  rintro w ⟨u, hrole, hactive⟩
  exact hkept.owners w ⟨u, hrole, (access_sound hP).inv.live_of_active hactive⟩

/-- Two owners leave at once, each reading that there is another: the second batch is refused. -/
theorem access_keepsAuthority_bothLeave :
    ∃ R, Pool.follow ⟨sharedWorkspace, []⟩ bothLeave = some R ∧
      (R.store.isDeleted "w" = true ∨
        ∃ u, R.store.role "w" u = some .owner ∧ R.store.live u = true) := by
  obtain ⟨R, hR⟩ := Option.isSome_iff_exists.mp bothLeave_follows
  obtain ⟨labels, hrun⟩ := bothLeave_run hR
  exact ⟨R, hR, (access_keepsAuthority sharedWorkspace_reachable hrun).1 "w"
    ⟨"ann", by decide +kernel, by decide +kernel⟩⟩

/-- **REVISIONS WITNESS ACCESS.** Between any two moments of a run the revisions of a live
    workspace and of an account do not fall, and where they are the same, so are the members, the
    guest links and the memberships; and the prior role that an event tells is the role from just
    before it was written. -/
theorem revisions_witness (hP : (access digest).Reachable P)
    (h : (access digest).Run P labels R) :
    (∀ w n m, P.store.accessRevision w = some n → R.store.accessRevision w = some m →
      R.store.isDeleted w = false → n ≤ m ∧ (n = m → SameAccess P.store R.store w)) ∧
    (∀ u n m, P.store.membershipRevision u = some n → R.store.membershipRevision u = some m →
      n ≤ m ∧ (n = m → SameMembership P.store R.store u)) ∧
    ∀ label T, (access digest).step R label T →
      ∃ new, T.store.audit = R.store.audit ++ new ∧ ∀ e ∈ new, e.Tells R.store := by
  have hw := (access_rely hP h).1
  refine ⟨fun w n m hn hm hlive => ?_, fun u n m hn hm => ?_, fun label T hs => ?_⟩
  · rcases hw.workspace w n hn with hd | ⟨k, hk, hle, hsame⟩
    · rw [hlive] at hd
      cases hd
    · rw [hm, Option.some.injEq] at hk
      exact ⟨hk ▸ hle, fun heq => hsame (hk.symm.trans heq.symm)⟩
  · obtain ⟨k, hk, hle, hsame⟩ := hw.account u n hn
    rw [hm, Option.some.injEq] at hk
    exact ⟨hk ▸ hle, fun heq => hsame (hk.symm.trans heq.symm)⟩
  · have hR : (access digest).Reachable R := by
      obtain ⟨P₀, labels₀, hinit, hrun⟩ := hP
      exact ⟨P₀, labels₀ ++ labels, hinit, hrun.append h⟩
    refine (step_sound ?_ (access_sound hR) trivial hs).2.2
    rintro p ⟨operation, rfl⟩ s -
    exact operation.wp digest s

theorem revisions_witness_bothLeave :
    ∃ R, Pool.follow ⟨sharedWorkspace, []⟩ bothLeave = some R ∧
      SameMembership sharedWorkspace R.store "bob" := by
  obtain ⟨R, hR⟩ := Option.isSome_iff_exists.mp bothLeave_follows
  obtain ⟨labels, hrun⟩ := bothLeave_run hR
  have hrevision : R.store.membershipRevision "bob" = some 0 := by
    have : (Pool.follow ⟨sharedWorkspace, []⟩ bothLeave).map
        (fun R => R.store.membershipRevision "bob") = some (some 0) := by decide +kernel
    rw [hR] at this
    exact Option.some.inj this
  exact ⟨R, hR, ((revisions_witness sharedWorkspace_reachable hrun).2.1 "bob" 0 0
    (by decide +kernel) hrevision).2 rfl⟩

end Runs

end Stowplan.Governance
