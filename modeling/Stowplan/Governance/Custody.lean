/-
  File:      Stowplan/Governance/Custody.lean
  Subject:   CUSTODY AND THE DELETION OF ACCOUNTS (account-governance.ts, migrations/0006).

  Every workspace is in the custody of one account, which is charged for it. Custody moves only
  when its account is deleted: to other active owners, by a plan that was made before the batch.

  * `Tended`: what every other change leaves of the custody;
  * `setCustodian_moved`: a transfer stays within the limits of the account that takes over;
  * `AccountDeletion.statements_custody`: the batch hands over everything that was planned;
  * `custody_handedOver`: no deleted account keeps custody, if none came to it after the plan;
  * `deletion_keepsCustody`: the custody that another deletion hands over meanwhile stays behind.
-/
import Stowplan.Governance.Budget
import Stowplan.Governance.Operations

namespace Stowplan.Governance

open Tables Program

/-! ## 1. Custody -/

namespace Tables

variable (T : Tables)

/-- The account exists, and is not deleted. -/
def kept (userId : String) : Bool := (T.users.get userId).any (·.deletedAt.isNone)

/-- The workspace has a snapshot. -/
def stored (workspaceId : String) : Bool := (T.snapshots.get workspaceId).isSome

/-- A workspace is in the custody of an account that is not deleted, and only workspaces are. -/
structure Custodial : Prop where
  stored : ∀ w, T.stored w = true → ∃ u, T.custodian w = some u ∧ T.kept u = true
  custody : ∀ w u, T.custodian w = some u → T.stored w = true

end Tables

/-- A custodian is an account that is not deleted. -/
theorem Tables.Custodial.kept {T : Tables} (h : T.Custodial) {w u : String}
    (hu : T.custodian w = some u) : T.kept u = true := by
  obtain ⟨v, hv, hkept⟩ := h.stored w (h.custody w u hu)
  rw [hu, Option.some.injEq] at hv
  rwa [hv]

/-- A live account is not deleted. -/
theorem kept_of_live {T : Tables} {u : String} (h : T.live u = true) : T.kept u = true := by
  unfold Tables.live at h
  unfold Tables.kept
  cases hu : T.users.get u with
  | none =>
      rw [hu] at h
      cases h
  | some x =>
      rw [hu] at h
      simp only [Option.any_some, User.isLive, Bool.and_eq_true] at h
      exact h.2

/-- **What a change leaves of the custody**, unless an account or a workspace is deleted: it
    stays where it is, and a new workspace comes to an account that is not deleted. -/
structure Tended (S T : Tables) : Prop where
  kept : ∀ u, S.kept u = true → T.kept u = true
  stays : ∀ w u, S.custodian w = some u → T.custodian w = some u
  comes : ∀ w u, T.custodian w = some u →
    S.custodian w = some u ∨ (T.kept u = true ∧ T.stored w = true)
  stored : ∀ w, S.stored w = true → T.stored w = true
  allocated : ∀ w, T.stored w = true → S.stored w = true ∨ ∃ u, T.custodian w = some u

section Tended

variable {S T R : Tables} {w u : String}

/-- Custody that is tended twice is tended. -/
theorem Tended.trans (h : Tended S T) (h' : Tended T R) : Tended S R where
  kept u hu := h'.kept u (h.kept u hu)
  stays w u hu := h'.stays w u (h.stays w u hu)
  comes w u hu := by
    rcases h'.comes w u hu with hu | hu
    · rcases h.comes w u hu with hu | ⟨hkept, hstored⟩
      · exact .inl hu
      · exact .inr ⟨h'.kept u hkept, h'.stored w hstored⟩
    · exact .inr hu
  stored w hw := h'.stored w (h.stored w hw)
  allocated w hw := by
    rcases h'.allocated w hw with hw | hw
    · rcases h.allocated w hw with hw | ⟨u, hu⟩
      · exact .inl hw
      · exact .inr ⟨u, h'.stays w u hu⟩
    · exact .inr hw

/-- Accounts are deleted no more than before, and custody and workspaces are the same. -/
theorem Tended.of_custody (hkept : ∀ u, S.kept u = true → T.kept u = true)
    (hcustody : T.custody = S.custody) (hstored : ∀ w, T.stored w = S.stored w) : Tended S T := by
  have hcustodian : ∀ w, T.custodian w = S.custodian w := fun w => by
    rw [Tables.custodian, hcustody]
    rfl
  exact ⟨hkept, fun w u hu => by rw [hcustodian, hu],
    fun w u hu => .inl (by rw [← hcustodian, hu]), fun w hw => by rw [hstored, hw],
    fun w hw => .inl (by rw [← hstored, hw])⟩

theorem Tended.refl (S : Tables) : Tended S S := .of_custody (fun _ => id) rfl fun _ => rfl

/-- Where custody is tended, workspaces keep a custodian. -/
theorem Tended.custodial (h : Tended S T) (hS : S.Custodial) : T.Custodial := by
  have hcustody : ∀ w u, T.custodian w = some u → T.kept u = true ∧ T.stored w = true := by
    intro w u hu
    rcases h.comes w u hu with hu | hu
    · exact ⟨h.kept u (hS.kept hu), h.stored w (hS.custody w u hu)⟩
    · exact hu
  refine ⟨fun w hw => ?_, fun w u hu => (hcustody w u hu).2⟩
  rcases h.allocated w hw with hw | ⟨u, hu⟩
  · obtain ⟨u, hu, -⟩ := hS.stored w hw
    have hu := h.stays w u hu
    exact ⟨u, hu, (hcustody w u hu).1⟩
  · exact ⟨u, hu, (hcustody w u hu).1⟩

/-! ### Statements -/

theorem stored_update {p : Snapshot → Bool} {f : Snapshot → Snapshot}
    (hf : ∀ s, Row.key (f s) = Row.key s) (snapshots : Table Snapshot) (w : String) :
    ((snapshots.update p f hf).get w).isSome = (snapshots.get w).isSome := by
  rw [Table.get_update, Option.isSome_map]

/-- An update of accounts that deletes none. -/
theorem kept_update {p : User → Bool} {f : User → User} (hf : ∀ x, Row.key (f x) = Row.key x)
    (hdeleted : ∀ x, (f x).deletedAt = x.deletedAt) (users : Table User) (u : String) :
    ((users.update p f hf).get u).any (·.deletedAt.isNone) =
      (users.get u).any (·.deletedAt.isNone) :=
  any_update hf (·.deletedAt.isNone) (fun x => by rw [hdeleted]) users u

theorem bumpMember_tended {members : Table Member}
    (h : Tables.bumpMember { S with members } w u = some T) : Tended S T := by
  have h := bumpMember_eq h
  subst h
  refine .of_custody (fun x hx => ?_) rfl (stored_update Snapshot.bumpAccess_key S.snapshots)
  exact (kept_update User.bumpMembership_key (fun _ => rfl) S.users x).trans hx

/-- A revision is no matter of custody. -/
theorem bumpAccess_tended {guestLinks : Table GuestLink} {p : String → Bool}
    (h : Tables.bumpAccess { S with guestLinks } p = some T) : Tended S T := by
  have h := bumpAccess_eq h
  subst h
  exact .of_custody (fun _ => id) rfl (stored_update Snapshot.bumpAccess_key S.snapshots)

theorem bumpAccount_tended (h : S.bumpAccount u = some T) : Tended S T := by
  have h := bumpAccount_eq h
  subst h
  refine .of_custody (fun x hx => ?_) rfl fun _ => rfl
  exact (kept_update User.bumpAccount_key (fun _ => rfl) S.users x).trans hx

/-- The trigger admits only live accounts. -/
theorem custodianRefused_live (h : S.custodianRefused w u = false) : S.live u = true := by
  simp only [Tables.custodianRefused, Bool.or_eq_false_iff, Bool.not_eq_false'] at h
  exact h.1.1

theorem custodian_insert {custody : Table Custody} (h : S.custody.insert ⟨w, u⟩ = some custody)
    (x : String) : ({ S with custody } : Tables).custodian x =
      if w = x then some u else S.custodian x := by
  have hget : custody.get x = if w = x then some ⟨w, u⟩ else S.custody.get x :=
    Table.get_insert h x
  show (custody.get x).map _ = _
  rw [hget]
  by_cases hx : w = x
  · rw [if_pos hx, if_pos hx]
    rfl
  · rw [if_neg hx, if_neg hx]
    rfl

/-- A new row of custody for a live account. -/
theorem insertCustody_tended (h : S.insertCustody w u = some T) : Tended S T := by
  obtain ⟨custody, hcustody, rfl, hrefused, hstored⟩ := insertCustody_eq h
  have hget := custodian_insert hcustody
  refine ⟨fun _ => id, fun x v hv => ?_, fun x v hv => ?_, fun _ => id, fun _ => .inl⟩
  · rw [hget, if_neg]
    · exact hv
    · rintro rfl
      have hnew : S.custody.get w = none := Table.insert_new hcustody
      rw [Tables.custodian, hnew] at hv
      cases hv
  · rw [hget] at hv
    split at hv
    · rename_i hx
      cases hv
      have hkept : S.kept u = true := kept_of_live (custodianRefused_live hrefused)
      exact .inr ⟨hkept, hx ▸ hstored⟩
    · exact .inl hv

/-- A workspace comes with its custody. -/
theorem allocate_tended {snapshot : Snapshot} (hsnapshot : S.insertSnapshot snapshot = some R)
    (hcustody : R.insertCustody snapshot.workspaceId u = some T) : Tended S T := by
  have hR := insertCustody_tended hcustody
  obtain ⟨snapshots, hs, hsnapshot⟩ := Option.bind_eq_some_iff.mp hsnapshot
  cases hsnapshot
  obtain ⟨custody, hc, rfl, -, -⟩ := insertCustody_eq hcustody
  refine ⟨hR.kept, hR.stays, hR.comes, fun w hw => hR.stored w ?_, fun w hw => ?_⟩
  · show (snapshots.get w).isSome = true
    rw [Table.get_insert hs]
    split
    · rfl
    · exact hw
  · by_cases hw' : snapshot.workspaceId = w
    · exact .inr ⟨u, (custodian_insert hc w).trans (if_pos hw')⟩
    · refine .inl ?_
      have hget := Table.get_insert hs w
      rw [if_neg (show ¬ Row.key snapshot.measured = w from hw')] at hget
      show (S.snapshots.get w).isSome = true
      rw [← hget]
      exact hw

/-- An update of an account that does not delete it. -/
theorem updateUser_tended {c : UserChange} (hkept : c.deletedAt = none)
    (h : S.updateUser u c = some T) : Tended S T := by
  rcases updateUser_spec h with ⟨-, rfl⟩ | ⟨old, hu⟩
  · exact .refl _
  · refine .of_custody (fun x hx => ?_) ?_ fun w => ?_
    · unfold Tables.kept
      rw [hu.users]
      by_cases hxu : x = u
      · rw [Tables.kept, hxu, hu.before] at hx
        rw [if_pos hxu]
        show (c.deletedAt.or old.deletedAt).isNone = true
        rw [hkept]
        exact hx
      · rw [if_neg hxu]
        exact hx
    · obtain ⟨users, snapshots, rfl⟩ := hu.tables
      rfl
    · rw [Tables.stored, hu.snapshots, Option.isSome_map]
      rfl

/-- A new member. -/
theorem insertMember_tended {m : Member} (h : S.insertMember m = some T) : Tended S T := by
  obtain ⟨members, R, -, -, hR, h⟩ := insertMember_cases h
  have hR := bumpMember_tended hR
  rcases h with rfl | h
  · exact hR
  · exact hR.trans (insertCustody_tended h)

/-- **Each change tends the custody.** -/
theorem Change.tended (h : Change S T) : Tended S T := by
  cases h with
  | setMemberRole _ h =>
      unfold Tables.setMemberRole at h
      split at h
      · cases h
        exact .refl S
      · exact bumpMember_tended h
  | deleteMember _ h =>
      unfold Tables.deleteMember at h
      split at h
      · cases h
        exact .refl S
      · exact bumpMember_tended h
  | insertMember h => exact insertMember_tended h
  | updateUser hkept _ h => exact updateUser_tended hkept h
  | insertUser hkept h =>
      obtain ⟨users, hu, rfl⟩ := insertUser_eq h
      refine .of_custody (fun x hx => ?_) rfl fun _ => rfl
      show (users.get x).any _ = true
      rw [Table.get_insert hu]
      split
      · rw [Option.any_some, hkept]
        rfl
      · exact hx
  | identities => exact .of_custody (fun _ => id) rfl fun _ => rfl
  | bumpAccount h => exact bumpAccount_tended h
  | revokeLink h =>
      unfold Tables.revokeLink at h
      split at h
      · exact bumpAccess_tended h
      · cases h
        exact .refl S
  | deleteLink h =>
      unfold Tables.deleteLink at h
      split at h
      · exact bumpAccess_tended h
      · cases h
        exact .refl S
  | allocate hsnapshot hcustody => exact allocate_tended hsnapshot hcustody
  | insertDeletion h =>
      obtain ⟨deletions, -, h⟩ := Option.bind_eq_some_iff.mp h
      cases h
      exact .of_custody (fun _ => id) rfl fun _ => rfl
  | closeDeletion w =>
      unfold Tables.closeDeletion
      split
      · split
        · exact .of_custody (fun _ => id) rfl fun _ => rfl
        · exact .refl S
      · exact .refl S
  | content c h =>
      rcases updateState_eq h with rfl | rfl
      · exact .refl _
      · exact .of_custody (fun _ => id) rfl (stored_update c.apply_key S.snapshots)
  | sessions => exact .of_custody (fun _ => id) rfl fun _ => rfl
  | banDigests => exact .of_custody (fun _ => id) rfl fun _ => rfl
  | allowance => exact .of_custody (fun _ => id) rfl fun _ => rfl
  | log => exact .of_custody (fun _ => id) rfl fun _ => rfl

/-- A new link. -/
theorem GuestLinkCreation.statements_tended (c : GuestLinkCreation)
    (h : c.statements S = some T) : Tended S T := by
  rcases c.statements_cases h with rfl | ⟨R, hR, rfl⟩
  · exact .refl _
  · unfold Tables.insertGuestLink at hR
    split at hR
    · cases hR
    · obtain ⟨guestLinks, -, hR⟩ := Option.bind_eq_some_iff.mp hR
      exact (bumpAccess_tended hR).trans (.of_custody (fun _ => id) rfl fun _ => rfl)

/-- A redemption. -/
theorem Redemption.statements_tended (c : Redemption) {row : GuestLink}
    (h : c.statements row S = some T) : Tended S T := by
  obtain ⟨Q, R, hQ, hR, h⟩ := c.statements_cases h
  have hQ : Tended S Q := by
    rcases hQ with rfl | hQ
    · exact .refl _
    · unfold Tables.consumeLink at hQ
      split at hQ
      · split at hQ
        · cases hQ
        · exact bumpAccess_tended hQ
      · cases hQ
        exact .refl S
  have hR : Tended S R := by
    rcases hR with rfl | ⟨m, hR⟩
    · exact hQ
    · exact hQ.trans (insertMember_tended hR)
  rcases h with rfl | rfl
  · exact hR
  · exact hR.trans (.of_custody (fun _ => id) rfl fun _ => rfl)

/-- Changes tend custody. -/
theorem Changes.tended (h : Changes S T) : Tended S T := by
  induction h with
  | refl => exact .refl S
  | tail _ h ih => exact ih.trans h.tended

end Tended

/-! ## 2. Transfers -/

/-- Custody has moved, and nothing else. -/
structure Moved (S T : Tables) : Prop where
  tables : ∃ custody, T = { S with custody }
  within : ∀ b, S.Within b → T.Within b
  received : ∀ w b, T.custodian w = some b → S.custodian w = some b ∨ T.Within b

section Transfers

variable {S T : Tables} {w u v : String}

theorem Moved.refl (S : Tables) : Moved S S :=
  ⟨⟨S.custody, rfl⟩, fun _ => id, fun _ _ => .inl⟩

/-- Transfers follow one another. -/
theorem Moved.trans {R : Tables} (h : Moved S T) (h' : Moved T R) : Moved S R := by
  refine ⟨?_, fun b hb => h'.within b (h.within b hb), fun w b hb => ?_⟩
  · obtain ⟨custody, rfl⟩ := h.tables
    obtain ⟨custody', rfl⟩ := h'.tables
    exact ⟨custody', rfl⟩
  · rcases h'.received w b hb with hb | hb
    · rcases h.received w b hb with hb | hb
      · exact .inl hb
      · exact .inr (h'.within b hb)
    · exact .inr hb

/-- **A transfer stays within the limits** of the account that takes over, and gives the others
    nothing. -/
theorem setCustodian_moved (hv : S.custodian w = some v) (hne : v ≠ u)
    (h : S.setCustodian w u = some T) : Moved S T := by
  obtain ⟨custody, rfl, hrows, hrefused, hcustodian⟩ := setCustodian_cases hv hne h
  obtain ⟨hbudget, hu⟩ := budget_of_row (S := S) (T := { S with custody }) rfl hrows hrefused
  refine ⟨⟨_, rfl⟩, fun b hb => hbudget.within hb, fun x b hb => ?_⟩
  rw [hcustodian] at hb
  split at hb
  · cases hb
    exact .inr hu
  · exact .inl hb

/-- **What the transfers of a plan do**: what the account has of the planned workspaces goes to
    the accounts that are planned for them. -/
structure HandsOver (userId : String) (transfers : List CustodyTransfer) (S T : Tables) :
    Prop where
  moved : Moved S T
  held : ∀ w, (T.custodian w).isSome = (S.custodian w).isSome
  planned : ∀ w b, T.custodian w = some b → S.custodian w = some b ∨
    (S.custodian w = some userId ∧ ∃ t ∈ transfers, t.workspaceId = w ∧ t.toUserId = b)
  left : ∀ w, T.custodian w = some userId →
    S.custodian w = some userId ∧ ∀ t ∈ transfers, t.workspaceId ≠ w

/-- A transfer hands its workspace over. -/
theorem handOver_handsOver (c : AccountDeletion) {t : CustodyTransfer}
    (hne : t.toUserId ≠ c.userId) (h : c.handOver S t = some T) :
    HandsOver c.userId [t] S T := by
  unfold AccountDeletion.handOver at h
  split at h
  · rename_i hmine
    obtain ⟨custody, -, -, -, hcustodian⟩ := setCustodian_cases hmine hne.symm h
    refine ⟨setCustodian_moved hmine hne.symm h, fun w => ?_, fun w b hb => ?_, fun w hw => ?_⟩
    · rw [hcustodian]
      split
      · rename_i hw
        rw [hw, hmine]
        rfl
      · rfl
    · rw [hcustodian] at hb
      split at hb
      · rename_i hw
        cases hb
        exact .inr ⟨hw ▸ hmine, t, List.mem_singleton_self t, hw.symm, rfl⟩
      · exact .inl hb
    · rw [hcustodian] at hw
      split at hw
      · exact absurd (Option.some.inj hw) hne
      · rename_i hne
        refine ⟨hw, fun t' ht' => ?_⟩
        rw [List.mem_singleton.mp ht']
        exact fun h => hne h.symm
  · rename_i hother
    cases h
    refine ⟨.refl _, fun _ => rfl, fun _ _ => .inl, fun w hw => ⟨hw, fun t' ht' hkey => ?_⟩⟩
    rw [List.mem_singleton.mp ht'] at hkey
    rw [hkey] at hother
    exact hother hw

/-- Lists of transfers follow one another. -/
theorem HandsOver.trans {R : Tables} {ts ts' : List CustodyTransfer}
    (h : HandsOver u ts S T) (h' : HandsOver u ts' T R) : HandsOver u (ts ++ ts') S R := by
  refine ⟨h.moved.trans h'.moved, fun w => (h'.held w).trans (h.held w), fun w b hb => ?_,
    fun w hw => ?_⟩
  · rcases h'.planned w b hb with hb | ⟨hmine, t, ht, hw, hto⟩
    · rcases h.planned w b hb with hb | ⟨hmine, t, ht, hw⟩
      · exact .inl hb
      · exact .inr ⟨hmine, t, List.mem_append_left _ ht, hw⟩
    · exact .inr ⟨(h.left w hmine).1, t, List.mem_append_right _ ht, hw, hto⟩
  · obtain ⟨hw, hleft⟩ := h'.left w hw
    obtain ⟨hw, hleft'⟩ := h.left w hw
    refine ⟨hw, fun t ht => ?_⟩
    rcases List.mem_append.mp ht with ht | ht
    · exact hleft' t ht
    · exact hleft t ht

/-- All transfers hand over all of theirs. -/
theorem handOvers_handsOver (c : AccountDeletion) {transfers : List CustodyTransfer}
    (hne : ∀ t ∈ transfers, t.toUserId ≠ c.userId)
    (h : S.forRows transfers c.handOver = some T) : HandsOver c.userId transfers S T := by
  unfold Tables.forRows at h
  induction transfers generalizing S with
  | nil =>
      cases h
      exact ⟨.refl _, fun _ => rfl, fun _ _ => .inl, fun w hw =>
        ⟨hw, fun _ ht => absurd ht List.not_mem_nil⟩⟩
  | cons t transfers ih =>
      obtain ⟨R, hR, h⟩ := Option.bind_eq_some_iff.mp h
      exact (handOver_handsOver c (hne t List.mem_cons_self) hR).trans
        (ih (fun t ht => hne t (List.mem_cons_of_mem _ ht)) h)

/-! ## 3. The deletion of an account -/

/-- **Custody goes to an active owner**, and stays within its limits. -/
def Transferred (S T : Tables) : Prop :=
  ∀ w a b, S.custodian w = some a → T.custodian w = some b → a ≠ b →
    (S.role w b = some .owner ∧ S.live b = true) ∧
      (T.role w b = some .owner ∧ T.live b = true) ∧ T.Within b

theorem Tended.transferred (h : Tended S T) : Transferred S T := by
  intro w a b ha hb hne
  rw [h.stays w a ha, Option.some.injEq] at hb
  exact absurd hb hne

/-- A workspace that goes takes its custody along. -/
theorem deleteSnapshot_custody (hS : S.Custodial) (w : String) :
    (S.deleteSnapshot w).Custodial ∧
      ∀ x b, (S.deleteSnapshot w).custodian x = some b → S.custodian x = some b := by
  have hcustodian : ∀ x, (S.deleteSnapshot w).custodian x =
      if x = w then none else S.custodian x := by
    intro x
    show ((S.custody.delete _).get x).map _ = _
    rw [Table.get_delete]
    unfold Tables.custodian
    cases hx : S.custody.get x with
    | none => simp
    | some c =>
        have hkey : c.workspaceId = x := (Table.get_some hx).2
        by_cases hxw : x = w <;> simp [Option.filter, hkey, hxw]
  have hstored : ∀ x, (S.deleteSnapshot w).stored x = (decide (x ≠ w) && S.stored x) := by
    intro x
    show ((S.snapshots.delete _).get x).isSome = _
    rw [Table.get_delete]
    unfold Tables.stored
    cases hx : S.snapshots.get x with
    | none => simp
    | some s =>
        have hkey : s.workspaceId = x := (Table.get_some hx).2
        by_cases hxw : x = w <;> simp [Option.filter, hkey, hxw]
  refine ⟨⟨fun x hx => ?_, fun x u hu => ?_⟩, fun x b hb => ?_⟩
  · rw [hstored, Bool.and_eq_true, decide_eq_true_iff] at hx
    obtain ⟨u, hu, hkept⟩ := hS.stored x hx.2
    exact ⟨u, (hcustodian x).trans ((if_neg hx.1).trans hu), hkept⟩
  · rw [hcustodian] at hu
    split at hu
    · cases hu
    · rename_i hne
      rw [hstored, hS.custody x u hu]
      simpa using hne
  · rw [hcustodian] at hb
    split at hb
    · cases hb
    · exact hb

/-- The deletion of a workspace ends its custody. -/
theorem Concluded.custody (hS : S.Custodial) (h : Concluded S T) :
    T.Custodial ∧ Transferred S T := by
  obtain ⟨R, hR, h⟩ := h
  have hR := Changes.tended hR
  rcases h with rfl | ⟨w, -, rfl⟩
  · exact ⟨hR.custodial hS, hR.transferred⟩
  · obtain ⟨hcustodial, hcustodian⟩ := deleteSnapshot_custody (hR.custodial hS) w
    refine ⟨hcustodial, fun x a b ha hb hne => ?_⟩
    have hb := hcustodian x b hb
    rw [hR.stays x a ha, Option.some.injEq] at hb
    exact absurd hb hne

theorem Moved.kept (h : Moved S T) (b : String) : T.kept b = S.kept b := by
  obtain ⟨custody, rfl⟩ := h.tables
  rfl

/-- The first statement of the batch changes one account. -/
structure Departed (u : String) (transfers : List CustodyTransfer) (S T : Tables) : Prop where
  custodian : ∀ w, T.custodian w = S.custodian w
  stored : ∀ w, T.stored w = S.stored w
  kept : ∀ b, b ≠ u → T.kept b = S.kept b
  live : ∀ b, b ≠ u → T.live b = S.live b
  role : ∀ w b, T.role w b = S.role w b
  guarded : ∀ w, S.custodian w = some u → ∀ t ∈ transfers,
    S.role t.workspaceId t.toUserId = some .owner ∧ S.live t.toUserId = true

/-- A transfer that is admitted goes to an owner. -/
theorem custodyGuard_owner {transfers : List CustodyTransfer} {t : CustodyTransfer}
    (h : S.custodyGuard transfers = true) (ht : t ∈ transfers) :
    S.role t.workspaceId t.toUserId = some .owner ∧ S.live t.toUserId = true := by
  have h := List.all_eq_true.mp h t ht
  simp only [Bool.and_eq_true, decide_eq_true_eq] at h
  exact ⟨h.2, h.1.1.1⟩

/-- The account is deleted now, by the plan; or it had been deleted, and has nothing in its
    custody; or nothing is done. -/
theorem AccountDeletion.update_departed (c : AccountDeletion) {transfers : List CustodyTransfer}
    (hS : S.Custodial) (h : c.update transfers S = some T)
    (hdeleted : T.deletedAt c.userId c.at' = true) : Departed c.userId transfers S T := by
  unfold AccountDeletion.update at h
  split at h
  · rename_i hallowed
    simp only [AccountDeletion.allowed, Bool.and_eq_true] at hallowed
    have hguarded := fun t ht => custodyGuard_owner (t := t) hallowed.2 ht
    rcases updateUser_spec h with ⟨-, rfl⟩ | ⟨old, hu⟩
    · exact ⟨fun _ => rfl, fun _ => rfl, fun _ _ => rfl, fun _ _ => rfl, fun _ _ => rfl,
        fun _ _ => hguarded⟩
    · have hkept : ∀ b, b ≠ c.userId → T.kept b = S.kept b := fun b hb => by
        rw [Tables.kept, hu.users, if_neg hb]
        rfl
      have hlive : ∀ b, b ≠ c.userId → T.live b = S.live b := fun b hb => by
        rw [Tables.live, hu.users, if_neg hb]
        rfl
      have hstored : ∀ w, T.stored w = S.stored w := fun w => by
        rw [Tables.stored, hu.snapshots, Option.isSome_map]
        rfl
      refine ⟨fun w => ?_, hstored, hkept, hlive, hu.role, fun _ _ => hguarded⟩
      obtain ⟨users, snapshots, rfl⟩ := hu.tables
      rfl
  · cases h
    refine ⟨fun _ => rfl, fun _ => rfl, fun _ _ => rfl, fun _ _ => rfl, fun _ _ => rfl,
      fun w hw => ?_⟩
    have hkept := hS.kept hw
    unfold Tables.deletedAt at hdeleted
    unfold Tables.kept at hkept
    cases hx : S.users.get c.userId with
    | none =>
        rw [hx] at hkept
        cases hkept
    | some x =>
        rw [hx] at hdeleted hkept
        simp only [Option.any_some, decide_eq_true_eq] at hdeleted hkept
        rw [hdeleted] at hkept
        cases hkept

/-- Where the account is not deleted in the end, nothing was done. -/
theorem AccountDeletion.update_refused (c : AccountDeletion) {transfers : List CustodyTransfer}
    (h : c.update transfers S = some T) (hdeleted : T.deletedAt c.userId c.at' ≠ true) :
    T = S := by
  unfold AccountDeletion.update at h
  split at h
  · rcases updateUser_spec h with ⟨-, rfl⟩ | ⟨old, hu⟩
    · rfl
    · refine absurd ?_ hdeleted
      rw [Tables.deletedAt, hu.users, if_pos rfl]
      simp [UserChange.updated, UserChange.apply, AccountDeletion.change]
  · cases h
    rfl

/-- What an account does beside another keeps that one's budget. -/
theorem Beside.within (h : Beside u S T) {b : String} (hb : S.Within b) : T.Within b := by
  have hbytes : T.storedBytes = S.storedBytes := funext h.bytes
  unfold Tables.Within Tables.custodyCount Tables.custodyBytes at *
  rw [h.custody, hbytes]
  exact hb

/-- No custody is left behind by an account all of whose custody was planned for. -/
theorem Departed.custodial {transfers : List CustodyTransfer} (hS : S.Custodial)
    (hd : Departed u transfers S T) (ho : HandsOver u transfers T R)
    (hne : ∀ t ∈ transfers, t.toUserId ≠ u)
    (hcovered : ∀ w, S.custodian w = some u → w ∈ transfers.map (·.workspaceId)) :
    R.Custodial := by
  have hkept : ∀ b, b ≠ u → S.kept b = true → R.kept b = true := fun b hb h => by
    rw [ho.moved.kept, hd.kept b hb, h]
  have hstored : ∀ w, R.stored w = S.stored w := fun w => by
    obtain ⟨custody, hR⟩ := ho.moved.tables
    rw [← hd.stored, hR]
    rfl
  have hcustody : ∀ w b, R.custodian w = some b → R.kept b = true ∧ R.stored w = true := by
    intro w b hb
    rcases ho.planned w b hb with hbT | ⟨hmine, t, ht, -, rfl⟩
    · rw [hd.custodian] at hbT
      refine ⟨hkept b (fun hbu => ?_) (hS.kept hbT), (hstored w).trans (hS.custody w b hbT)⟩
      obtain ⟨-, hleft⟩ := ho.left w (hbu ▸ hb)
      obtain ⟨t, ht, hw⟩ := List.mem_map.mp (hcovered w (hbu ▸ hbT))
      exact hleft t ht hw
    · rw [hd.custodian] at hmine
      exact ⟨hkept _ (hne t ht) (kept_of_live (hd.guarded w hmine t ht).2),
        (hstored w).trans (hS.custody w u hmine)⟩
  refine ⟨fun w hw => ?_, fun w b hb => (hcustody w b hb).2⟩
  rw [hstored] at hw
  obtain ⟨a, ha, -⟩ := hS.stored w hw
  have hheld := ho.held w
  rw [hd.custodian, ha] at hheld
  obtain ⟨b, hb⟩ := Option.isSome_iff_exists.mp hheld
  exact ⟨b, hb, (hcustody w b hb).1⟩

/-- An account that leaves with its transfers has transferred what it had. -/
theorem Departed.transferred {transfers : List CustodyTransfer} {Q : Tables}
    (hd : Departed u transfers S T) (ho : HandsOver u transfers T R) (hbeside : Beside u R Q)
    (hne : ∀ t ∈ transfers, t.toUserId ≠ u) : Transferred S Q := by
  intro w a b ha hb hab
  have hb : R.custodian w = some b := by
    rw [← hb, Tables.custodian, Tables.custodian, hbeside.custody]
  have hstays : T.custodian w ≠ some b := fun h => by
    rw [hd.custodian, ha, Option.some.injEq] at h
    exact hab h
  obtain ⟨hmine, t, ht, rfl, rfl⟩ := (ho.planned w b hb).resolve_left hstays
  rw [hd.custodian] at hmine
  have hguarded := hd.guarded _ hmine t ht
  have hwithin := (ho.moved.received _ _ hb).resolve_left hstays
  refine ⟨hguarded, ⟨?_, ?_⟩, hbeside.within hwithin⟩
  · obtain ⟨custody, hR⟩ := ho.moved.tables
    rw [hbeside.role _ _ (hne t ht), hR]
    exact (hd.role _ _).trans hguarded.1
  · obtain ⟨custody, hR⟩ := ho.moved.tables
    rw [hbeside.live, hR]
    exact (hd.live _ (hne t ht)).trans hguarded.2

/-- **The batch hands over all custody of the account**, if all of it was planned for. -/
theorem AccountDeletion.statements_custody (c : AccountDeletion)
    {transfers : List CustodyTransfer} (hS : S.Custodial)
    (hne : ∀ t ∈ transfers, t.toUserId ≠ c.userId)
    (hcovered : ∀ w, S.custodian w = some c.userId → w ∈ transfers.map (·.workspaceId))
    (h : c.statements transfers S = some T) : T.Custodial ∧ Transferred S T := by
  unfold AccountDeletion.statements at h
  obtain ⟨Q, hQ, h⟩ := Option.bind_eq_some_iff.mp h
  split at h
  · rename_i hdeleted
    have hd := c.update_departed hS hQ hdeleted
    obtain ⟨R, hR, hchanges, hbeside⟩ := c.cleanup_cases (live_of_deletedAt hdeleted) h
    have ho := handOvers_handsOver c hne hR
    exact ⟨(Changes.tended hchanges).custodial (hd.custodial hS ho hne hcovered),
      hd.transferred ho hbeside hne⟩
  · rename_i hdeleted
    cases h
    cases c.update_refused hQ hdeleted
    exact ⟨hS, (Tended.refl _).transferred⟩

end Transfers

/-! ## 4. The plan -/

section Plan

variable {D : Discipline Tables Label} {u : String} {candidates : List CustodyCandidate}

/-- A transfer goes to a candidate. -/
theorem custodyPlan_candidate {targets : List CustodyWorkspace}
    {projected : String → Option Usage} {t : CustodyTransfer}
    (ht : t ∈ (custodyPlan u candidates targets projected).2) :
    ∃ c ∈ candidates, c.candidateUserId = t.toUserId := by
  induction targets generalizing projected with
  | nil => cases ht
  | cons target targets ih =>
      unfold custodyPlan at ht
      split at ht
      · exact ih ht
      · rename_i selected hselected
        rcases List.mem_cons.mp ht with rfl | ht
        · exact ⟨selected, List.mem_of_find?_eq_some hselected, rfl⟩
        · exact ih ht

/-- **A plan that nothing stands against is for all the custody that was read.** -/
theorem custodyPlan_covers {targets : List CustodyWorkspace} {projected : String → Option Usage}
    (h : (custodyPlan u candidates targets projected).1 = []) :
    (custodyPlan u candidates targets projected).2.map (·.workspaceId) =
      targets.map (·.workspaceId) := by
  induction targets generalizing projected with
  | nil => rfl
  | cons target targets ih =>
      unfold custodyPlan at h ⊢
      split at h
      · cases h
      · exact congrArg (target.workspaceId :: ·) (ih h)

/-- The account itself is no candidate. -/
theorem custodyCandidates_ne {T : Tables} {w : String} {c : CustodyCandidate}
    (hc : c ∈ T.custodyCandidates u w) : c.candidateUserId ≠ u := by
  unfold Tables.custodyCandidates at hc
  rw [List.mem_insertionSort] at hc
  obtain ⟨m, -, hm⟩ := List.mem_filterMap.mp hc
  split at hm
  · rename_i hcond
    cases hm
    exact hcond.2.2.1
  · cases hm

/-- **What is prepared**: the account itself takes over nothing, and the plan is for the custody
    that it had at some time meanwhile. -/
theorem prepareAccountDeletion_wp {s : Tables} : (prepareAccountDeletion u).wp D
    (fun preparation _ => (∀ t ∈ preparation.custodyTransfers, t.toUserId ≠ u) ∧
      (preparation.blockers = [] → ∃ T, D.rely s T ∧
        preparation.custodyTransfers.map (·.workspaceId) =
          (T.custodyOf u).map (·.workspaceId))) s := by
  refine (wp_bind _ _ _ s).mpr (wp_read? fun t₁ h₁ _ user _ => ?_)
  refine (wp_bind _ _ _ t₁).mpr (wp_read fun t₂ h₂ _ => ?_)
  refine (wp_bind _ _ _ t₂).mpr (wp_read fun t₃ h₃ _ => ?_)
  refine (wp_bind _ _ _ t₃).mpr (wp_read fun t₄ h₄ _ => ?_)
  refine (wp_bind _ _ _ t₄).mpr (wp_read fun t₅ h₅ _ => wp_ret ⟨fun t ht => ?_, fun h => ?_⟩)
  · obtain ⟨c, hc, hto⟩ := custodyPlan_candidate ht
    obtain ⟨target, -, hc⟩ := List.mem_flatMap.mp hc
    exact hto ▸ custodyCandidates_ne hc
  · refine ⟨t₄, D.rely_trans (D.rely_trans (D.rely_trans h₁ h₂) h₃) h₄, custodyPlan_covers ?_⟩
    exact (List.append_eq_nil_iff.mp h).2

/-- A deletion transfers to others than the account itself. -/
theorem executeAccountDeletion_wp (c : AccountDeletion) (s : Tables)
    (h : ∀ transfers : List CustodyTransfer, (∀ t ∈ transfers, t.toUserId ≠ c.userId) → ∀ s,
      (batchAs (.deletion c.userId (transfers.map (·.workspaceId))) (c.statements transfers)).wp D
        (fun _ _ => True) s) :
    (executeAccountDeletion c).wp D (fun _ _ => True) s := by
  refine (wp_bind _ _ _ s).mpr (wp_require fun _ => ?_)
  refine (wp_bind _ _ _ s).mpr (wp_require fun _ => ?_)
  refine (wp_bind _ _ _ s).mpr (wp_mono prepareAccountDeletion_wp fun preparation t hp => ?_)
  refine (wp_bind _ _ _ t).mpr (wp_require fun _ => ?_)
  exact (wp_bind _ _ _ t).mpr (wp_require fun _ => h _ hp.1 t)

end Plan

/-! ## 5. Runs -/

/-- The runs of the access operations from tables whose custody is in order. -/
def custodyAccess (digest : String → String → String) :
    Machine (Pool Tables Label) (Option Label) :=
  interleavings (fun T => Consistent T ∧ T.Custodial)
    fun p => ∃ operation : Operation, p = operation.program digest

/-- What is in the custody of an account when it is deleted was so when this was prepared. -/
def PlannedFor (T : Tables) : Option Label → Prop
  | some (.deletion userId prepared) => ∀ w, T.custodian w = some userId → w ∈ prepared
  | _ => True

/-- What the operations keep: workspaces change hands only as a transfer does. -/
def custodyDiscipline : Discipline Tables Label where
  inv := fun T => Consistent T ∧ T.Custodial
  rely := fun _ _ => True
  guarantee := fun _ => Transferred
  ok := PlannedFor
  rely_refl := fun _ => trivial
  rely_trans := fun _ _ => trivial
  rely_of_guarantee := fun _ => trivial
  guarantee_refl := fun s => (Tended.refl s).transferred

section Runs

variable {digest : String → String → String} {P : Pool Tables Label}

/-- A batch that tends custody keeps the discipline. -/
theorem custody_keeps {label : Option Label} {run : Tables → Option Tables}
    (h : ∀ T T', Consistent T → T.Custodial → PlannedFor T label → run T = some T' →
      Consistent T' ∧ T'.Custodial ∧ Transferred T T') :
    Program.Keeps custodyDiscipline label fun T => (run T).map ((), ·) := by
  rintro T ⟨hc, hT⟩ hok b t hrun
  obtain ⟨T', hT', heq⟩ := Option.map_eq_some_iff.mp hrun
  cases heq
  obtain ⟨hc', hT'', htransferred⟩ := h T t hc hT hok hT'
  exact ⟨⟨hc', hT''⟩, htransferred⟩

theorem Batched.tended {Q : AuditEvent → Prop} {S T : Tables} (h : Batched Q S T) :
    Tended S T := by
  obtain ⟨R, hR, rfl | ⟨e, -, rfl⟩⟩ := h
  · exact Changes.tended hR
  · exact (Changes.tended hR).trans (.of_custody (fun _ => id) rfl fun _ => rfl)

/-- So do the batches of the other operations. -/
theorem custody_batched {run : Tables → Option Tables}
    (h : ∀ T T', Consistent T → run T = some T' → Batched (fun _ => True) T T') :
    (batch run).Lawful custodyDiscipline :=
  .exec (custody_keeps fun T T' hc hT _ hrun => by
    have hb := h T T' hc hrun
    exact ⟨(hb.committed (fun _ _ => trivial) hc).consistent, hb.tended.custodial hT,
      hb.tended.transferred⟩)

/-- **Every operation keeps custody in order.** -/
theorem Operation.custody (operation : Operation) (s : Tables) :
    (operation.program digest).wp custodyDiscipline (fun _ _ => True) s := by
  refine operation.wp_of (fun run h => ?_) (fun label run _ h => ?_) (fun c => ?_)
    (fun c _ => ?_) (fun c s => ?_) (fun c s => ?_) (fun c s => ?_) (fun c s => ?_) s
  · refine .exec (custody_keeps fun T T' hc hT _ hrun => ?_)
    have hb := h T T' hc hrun
    exact ⟨(hb.committed hc).consistent, hb.custody hT⟩
  · refine .execAs (custody_keeps fun T T' hc hT _ hrun => ?_)
    have hb := h T T' hrun
    have ht := Changes.tended hb
    exact ⟨(Changes.committed hc hb).consistent, ht.custodial hT, ht.transferred⟩
  · refine .execAs (custody_keeps fun T T' hc hT _ hrun => ?_)
    have ht := c.statements_tended hrun
    exact ⟨(c.statements_committed hc hrun).consistent, ht.custodial hT, ht.transferred⟩
  · refine .execAs (custody_keeps fun T T' hc hT _ hrun => ?_)
    have ht := c.statements_tended hrun
    exact ⟨(c.statements_committed hc hrun).consistent, ht.custodial hT, ht.transferred⟩
  · exact (changeWorkspaceMemberRole_lawful fun _ => custody_batched fun T T' hc =>
      c.statements_batched hc fun _ => trivial).wp s
  · exact (removeWorkspaceMember_lawful fun _ => custody_batched fun T T' hc =>
      c.statements_batched hc fun _ => trivial).wp s
  · exact (leaveWorkspace_lawful fun _ => custody_batched fun T T' hc =>
      c.statements_batched hc fun _ => trivial).wp s
  · refine executeAccountDeletion_wp c s fun transfers hne s => ?_
    refine (Lawful.execAs (custody_keeps fun T T' hc hT hok hrun => ?_)).wp s
    exact ⟨(c.statements_committed hc hrun).consistent, c.statements_custody hT hne hok hrun⟩

/-- In every run of planned deletions custody is sound. -/
theorem custodyAccess_sound
    (hP : ((custodyAccess digest).restrict fun P => PlannedFor P.store).Reachable P) :
    Sound custodyDiscipline P := by
  refine reachable_sound (fun _ h => h) ?_ hP
  rintro p ⟨operation, rfl⟩ s -
  exact operation.custody s

/-- **CUSTODY IS HANDED OVER**: in every run whose deletions find no custody that came to the
    account after it was prepared, every workspace is in the custody of an account that is not
    deleted, and custody moves only to an active owner, within its limits. -/
theorem custody_handedOver
    (hP : ((custodyAccess digest).restrict fun P => PlannedFor P.store).Reachable P) :
    (∀ w, P.store.stored w = true →
      ∃ u, P.store.custodian w = some u ∧ P.store.kept u = true) ∧
    ∀ label R, ((custodyAccess digest).restrict fun P => PlannedFor P.store).step P label R →
      Transferred P.store R.store := by
  have hsound := custodyAccess_sound hP
  refine ⟨hsound.inv.2.stored, fun label R ⟨hok, hs⟩ => ?_⟩
  refine (step_sound ?_ hsound hok hs).2
  rintro p ⟨operation, rfl⟩ s -
  exact operation.custody s

/-! ### Two owners who delete their accounts -/

/-- A workspace with three owners, in the custody of one of them. -/
def threeOwners : Tables :=
  { sharedWorkspace with
    users := ⟨[person "root" .admin, person "ann" .user, person "bob" .user, person "cas" .user],
      by decide +kernel⟩
    members := ⟨[⟨"w", "ann", .owner, "2026-01-01T00:00:00.000Z"⟩,
      ⟨"w", "bob", .owner, "2026-01-02T00:00:00.000Z"⟩,
      ⟨"w", "cas", .owner, "2026-01-03T00:00:00.000Z"⟩], by decide +kernel⟩
    custody := ⟨[⟨"w", "cas"⟩], by decide +kernel⟩ }

/-- The deletion of an account that confirms it. -/
def deletion (userId : String) : AccountDeletion where
  userId
  confirmation := "DELETE"
  recentAuthentication := true
  expectedAccountRevision := 0
  expectedMembershipRevision := 0
  deletionId := "del_" ++ userId
  at' := "2026-02-01T00:00:00.000Z"

/-- One owner reads what its deletion needs, the custodian is deleted, and then the owner. -/
def bothDeleted : List (Pool.Turn Tables Label) :=
  .start (executeAccountDeletion (deletion "ann")) :: .start
    (executeAccountDeletion (deletion "cas")) ::
      (List.replicate 5 (.run 0) ++ List.replicate 6 (.run 1) ++ [.run 0])

/-- The rows say whether custody is in order. -/
theorem Tables.Custodial.of_rows {T : Tables}
    (hsnapshots : T.snapshots.rows.all (fun s => (T.custodian s.workspaceId).any T.kept) = true)
    (hcustody : T.custody.rows.all (fun c => T.stored c.workspaceId) = true) : T.Custodial := by
  refine ⟨fun w hw => ?_, fun w u hu => ?_⟩
  · obtain ⟨s, hs⟩ := Option.isSome_iff_exists.mp hw
    obtain ⟨hmem, hkey⟩ := Table.get_some hs
    have h := List.all_eq_true.mp hsnapshots s hmem
    rw [show s.workspaceId = w from hkey] at h
    cases hu : T.custodian w with
    | some u =>
        rw [hu] at h
        exact ⟨u, rfl, h⟩
    | none =>
        rw [hu] at h
        cases h
  · obtain ⟨c, hc, -⟩ := Option.map_eq_some_iff.mp hu
    obtain ⟨hmem, hkey⟩ := Table.get_some hc
    have h := List.all_eq_true.mp hcustody c hmem
    rwa [show c.workspaceId = w from hkey] at h

theorem threeOwners_custodial : Consistent threeOwners ∧ threeOwners.Custodial :=
  ⟨.of_rows (by decide +kernel) (by decide +kernel),
    .of_rows (by decide +kernel) (by decide +kernel)⟩

/-- `PlannedFor`, as the rows tell. -/
def plannedIn (T : Tables) : Option Label → Bool
  | some (.deletion userId prepared) =>
    T.custody.rows.all fun c => c.custodianUserId ≠ userId || prepared.contains c.workspaceId
  | _ => true

theorem planned_of_rows (T : Tables) (label : Option Label) (h : plannedIn T label = true) :
    PlannedFor T label := by
  unfold plannedIn at h
  unfold PlannedFor
  split at h
  · intro w hw
    obtain ⟨c, hc, hcustodian⟩ := Option.map_eq_some_iff.mp hw
    obtain ⟨hmem, hkey⟩ := Table.get_some hc
    have hprepared := List.all_eq_true.mp h c hmem
    rw [hcustodian, show c.workspaceId = w from hkey] at hprepared
    simpa using hprepared
  · trivial

/-- The custodian is deleted to the end, and then the owner who took over. -/
def oneByOne : List (Pool.Turn Tables Label) :=
  .start (executeAccountDeletion (deletion "cas")) :: (List.replicate 6 (.run 0) ++
    .start (executeAccountDeletion (deletion "ann")) :: List.replicate 6 (.run 1))

theorem oneByOne_run {P : Pool Tables Label}
    (h : Pool.follow ⟨threeOwners, []⟩ oneByOne = some P) :
    ∃ labels, ((custodyAccess markedDigest).restrict fun P => PlannedFor P.store).Run
      ⟨threeOwners, []⟩ labels P := by
  refine Pool.follow_restrict planned_of_rows (fun p hp => ?_) h (by decide +kernel)
  simp only [oneByOne, List.mem_cons, List.mem_append, List.mem_replicate,
    Pool.Turn.start.injEq, reduceCtorEq, and_false, false_or, or_false] at hp
  rcases hp with rfl | rfl
  · exact ⟨.deleteAccount (deletion "cas"), rfl⟩
  · exact ⟨.deleteAccount (deletion "ann"), rfl⟩

/-- **Custody goes from hand to hand**: the workspace comes to the owner who is left. -/
theorem custody_handedOver_twice : ∃ P u,
    ((custodyAccess markedDigest).restrict fun P => PlannedFor P.store).Reachable P ∧
    P.store.kept "cas" = false ∧ P.store.kept "ann" = false ∧
    P.store.custodian "w" = some u ∧ P.store.kept u = true := by
  have hfollows : (Pool.follow ⟨threeOwners, []⟩ oneByOne).map (fun P =>
      (P.store.stored "w", P.store.kept "cas", P.store.kept "ann")) =
        some (true, false, false) := by decide +kernel
  obtain ⟨P, hP, hfacts⟩ := Option.map_eq_some_iff.mp hfollows
  obtain ⟨hstored, hrest⟩ := Prod.mk.inj hfacts
  obtain ⟨hcas, hann⟩ := Prod.mk.inj hrest
  obtain ⟨labels, hrun⟩ := oneByOne_run hP
  have hreachable : ((custodyAccess markedDigest).restrict fun P => PlannedFor P.store).Reachable
      P := ⟨_, labels, ⟨threeOwners_custodial, rfl⟩, hrun⟩
  obtain ⟨u, hu, hkept⟩ := (custody_handedOver hreachable).1 "w" hstored
  exact ⟨P, u, hreachable, hcas, hann, hu, hkept⟩

theorem bothDeleted_run {P : Pool Tables Label}
    (h : Pool.follow ⟨threeOwners, []⟩ bothDeleted = some P) :
    ∃ labels, (custodyAccess markedDigest).Run ⟨threeOwners, []⟩ labels P := by
  refine Pool.follow_run (fun p hp => ?_) h
  simp only [bothDeleted, List.mem_cons, List.mem_append, List.mem_replicate,
    Pool.Turn.start.injEq, reduceCtorEq, and_false, List.not_mem_nil, or_false] at hp
  rcases hp with rfl | rfl
  · exact ⟨.deleteAccount (deletion "ann"), rfl⟩
  · exact ⟨.deleteAccount (deletion "cas"), rfl⟩

/-- **A deleted account keeps custody**: the custodian hands the workspace over to an owner whose
    own deletion was prepared before, and goes on without it. -/
theorem deletion_keepsCustody : ∃ P, (custodyAccess markedDigest).Reachable P ∧
    P.store.stored "w" = true ∧ P.store.custodian "w" = some "ann" ∧
      P.store.kept "ann" = false := by
  have hfollows : (Pool.follow ⟨threeOwners, []⟩ bothDeleted).map (fun P =>
      (P.store.stored "w", P.store.custodian "w", P.store.kept "ann")) =
        some (true, some "ann", false) := by decide +kernel
  obtain ⟨P, hP, hfacts⟩ := Option.map_eq_some_iff.mp hfollows
  obtain ⟨labels, hrun⟩ := bothDeleted_run hP
  obtain ⟨hstored, hrest⟩ := Prod.mk.inj hfacts
  obtain ⟨hcustodian, hkept⟩ := Prod.mk.inj hrest
  exact ⟨P, ⟨_, labels, ⟨threeOwners_custodial, rfl⟩, hrun⟩, hstored, hcustodian, hkept⟩

end Runs

end Stowplan.Governance
