/-
  File:      Stowplan/Governance/Invitations.lean
  Subject:   GUEST LINKS ARE USED ONCE (auth.ts, migrations/0006).

  A redemption reads a link, and in one batch marks it as used, inserts the member and writes an
  event; each statement finds out again whether it has anything to do. Everything else may happen
  to the link, the workspace and the account in between.

  * `Redemption.statements_accepts`: a batch accepts the link as a whole, or changes nothing;
  * `Change.quiet`: nothing else marks a link as used, or writes that it was accepted;
  * `guestLinks_singleUse`: every link in every run.
-/
import Stowplan.Governance.Operations

namespace Stowplan.Governance

open Tables Program

/-! ## 1. Accepting a link -/

/-- The event tells that the link was accepted. -/
def AuditEvent.accepts (guestLinkId : String) (e : AuditEvent) : Bool :=
  e.detail.acceptedLink = some guestLinkId

/-- **A link is accepted**: it was open, its workspace stood, and who accepts it was no member.
    It is marked, one member comes with its role, and one event is written. -/
structure Accepts (S T : Tables) (link : GuestLink) (userId : String) (at' : Timestamp) : Prop where
  stood : S.guestLinks.get link.guestLinkId = some link
  usable : link.revokedAt = none ∧ link.consumedAt = none ∧ at' < link.expiresAt
  workspace : (S.snapshots.get link.workspaceId).isSome = true ∧
    S.isDeleted link.workspaceId = false
  stranger : S.role link.workspaceId userId = none ∧ S.live userId = true
  marked : ∃ redemptionId, T.guestLinks.get link.guestLinkId =
    some (link.consumed at' redemptionId)
  links : ∀ id, id ≠ link.guestLinkId → T.guestLinks.get id = S.guestLinks.get id
  member : T.role link.workspaceId userId = some link.role.toRole
  members : ∀ w u, (w, u) ≠ (link.workspaceId, userId) → T.role w u = S.role w u
  limit : T.memberCount link.workspaceId ≤ membersPerWorkspace
  event : ∃ e, T.audit = S.audit ++ [e] ∧ e.actorUserId = some userId ∧
    e.action = "member.invite.accept" ∧ e.detail.acceptedLink = some link.guestLinkId

/-- No link is accepted: each is marked as before, or new, and no event tells so. -/
structure Unaccepted (S T : Tables) : Prop where
  links : ∀ id l', T.guestLinks.get id = some l' →
    (∃ l, S.guestLinks.get id = some l ∧ l'.consumedAt = l.consumedAt ∧
      l'.redemptionId = l.redemptionId) ∨
    (l'.consumedAt = none ∧ ∀ e ∈ S.audit, e.accepts id = false)
  events : ∃ new, T.audit = S.audit ++ new ∧ ∀ e ∈ new, e.detail.acceptedLink = none

/-- **A link was used if and only if an event tells that it was accepted**, and none was accepted
    twice. -/
structure SingleUse (T : Tables) : Prop where
  used : ∀ id l, T.guestLinks.get id = some l →
    (l.consumedAt.isSome = true ↔ ∃ e ∈ T.audit, e.accepts id = true)
  once : ∀ id, T.audit.countP (·.accepts id) ≤ 1

/-- New identifiers are new: no link was redeemed under this one, and none of this name was
    accepted before. -/
def Fresh (T : Tables) : Option Label → Prop
  | some (.invitation guestLinkId) => ∀ e ∈ T.audit, e.accepts guestLinkId = false
  | some (.redemption redemptionId) =>
    ∀ id l, T.guestLinks.get id = some l → l.redemptionId ≠ some redemptionId
  | _ => True

section Batches

variable {S T R : Tables} {w u : String}

/-! ## 2. What redemption does -/

/-- A new member leaves links and events. -/
theorem insertMember_frame {m : Member} (h : S.insertMember m = some T) :
    T.guestLinks = S.guestLinks ∧ T.audit = S.audit ∧
      S.members.insert m = some T.members := by
  obtain ⟨members, R, hm, -, hR, h⟩ := insertMember_cases h
  have hR := bumpMember_eq hR
  subst hR
  rcases h with rfl | h
  · exact ⟨rfl, rfl, hm⟩
  · obtain ⟨custody, -, rfl, -, -⟩ := insertCustody_eq h
    exact ⟨rfl, rfl, hm⟩

/-- The roles after it. -/
theorem insertMember_role {m : Member} (h : S.members.insert m = some T.members) (w u : String) :
    T.role w u = if (m.workspaceId, m.userId) = (w, u) then some m.role else S.role w u := by
  have hget : T.members.get (w, u) = if (m.workspaceId, m.userId) = (w, u) then some m
      else S.members.get (w, u) := Table.get_insert h (w, u)
  unfold Tables.role
  rw [hget]
  split <;> rfl

/-- What using a link changes. -/
theorem consumeLink_eq {id redemptionId : String} {consumedAt : Timestamp} {link : GuestLink}
    (hlink : S.guestLinks.get id = some link)
    (h : S.consumeLink id consumedAt redemptionId = some T) :
    ∃ snapshots, T = { S with
      guestLinks := S.guestLinks.update (·.guestLinkId = id) (·.consumed consumedAt redemptionId)
        (GuestLink.consumed_key consumedAt redemptionId)
      snapshots } := by
  unfold Tables.consumeLink at h
  rw [hlink] at h
  dsimp only at h
  split at h
  · cases h
  · exact ⟨_, bumpAccess_eq h⟩

/-- One member more. -/
theorem memberCount_insert {m : Member} (h : S.members.insert m = some T.members) :
    T.memberCount m.workspaceId = S.memberCount m.workspaceId + 1 := by
  unfold Table.insert at h
  split at h
  · have hrows := congrArg Table.rows (Option.some.inj h)
    unfold Tables.memberCount Table.count
    rw [← hrows, List.countP_append]
    simp
  · cases h

/-- Nothing is found under an identifier that is new. -/
theorem redemptionId_filter {redemptionId : String}
    (hfresh : Fresh S (some (.redemption redemptionId))) (id : String) :
    (S.guestLinks.get id).filter (·.redemptionId = some redemptionId) = none := by
  cases hl : S.guestLinks.get id with
  | none => rfl
  | some l =>
      have := hfresh id l hl
      simp [Option.filter, this]

/-- Who was allowed to use the link up becomes a member, and the event is written. -/
theorem Redemption.accepts (c : Redemption) {row link : GuestLink}
    (hlink : S.guestLinks.get row.guestLinkId = some link) (hallowed : c.allowed S link = true)
    (hT : S.consumeLink row.guestLinkId c.at' c.redemptionId = some T)
    (hR : c.join row.guestLinkId T = some R) :
    Accepts S (c.event row R) link c.userId c.at' := by
  have hkey : link.guestLinkId = row.guestLinkId := (Table.get_some hlink).2
  obtain ⟨snapshots, rfl⟩ := consumeLink_eq hlink hT
  simp only [Redemption.allowed, GuestLink.usable, Bool.and_eq_true, Option.isNone_iff_eq_none,
    decide_eq_true_eq, Bool.not_eq_true'] at hallowed
  obtain ⟨⟨⟨⟨⟨⟨⟨⟨hrevoked, hconsumed⟩, hexpires⟩, -⟩, hactive⟩, hstored⟩, hdeleted⟩, hrole⟩,
    hcount⟩ := hallowed
  have hget : ∀ id, (S.guestLinks.update (·.guestLinkId = row.guestLinkId)
      (·.consumed c.at' c.redemptionId)
      (GuestLink.consumed_key c.at' c.redemptionId)).get id =
        if id = row.guestLinkId then (S.guestLinks.get id).map (·.consumed c.at' c.redemptionId)
        else S.guestLinks.get id :=
    fun id => Table.get_update_key (GuestLink.consumed_key c.at' c.redemptionId) row.guestLinkId
      fun _ => rfl
  have hmarked := hget row.guestLinkId
  rw [if_pos rfl, hlink, Option.map_some] at hmarked
  have hfilter : ((S.guestLinks.update (·.guestLinkId = row.guestLinkId)
      (·.consumed c.at' c.redemptionId)
      (GuestLink.consumed_key c.at' c.redemptionId)).get row.guestLinkId).filter
        (·.redemptionId = some c.redemptionId) = some (link.consumed c.at' c.redemptionId) := by
    rw [hmarked]
    simp [Option.filter, GuestLink.consumed]
  unfold Redemption.join at hR
  rw [hfilter] at hR
  have hactive' : Tables.active { S with
      guestLinks := S.guestLinks.update (·.guestLinkId = row.guestLinkId)
        (·.consumed c.at' c.redemptionId) (GuestLink.consumed_key c.at' c.redemptionId)
      snapshots } c.userId = true := hactive
  dsimp only at hR
  rw [if_pos hactive'] at hR
  obtain ⟨-, -, -, hlive, -, -⟩ := insertMember_cases hR
  obtain ⟨hlinks, haudit, hmembers⟩ := insertMember_frame hR
  have hmember : ∀ w u, R.role w u =
      if (link.workspaceId, c.userId) = (w, u) then some link.role.toRole else S.role w u :=
    insertMember_role hmembers
  have hevent : c.event row R = R.log (some c.userId) "member.invite.accept" c.userId
      (.inviteAccept row.role row.guestLinkId row.workspaceId) := by
    unfold Redemption.event
    rw [hlinks, hfilter]
    dsimp only
    exact if_pos ((hmember _ _).trans (if_pos rfl))
  rw [hevent]
  refine ⟨hkey ▸ hlink, ⟨hrevoked, hconsumed, hexpires⟩, ⟨hstored, hdeleted⟩, ⟨hrole, hlive⟩,
    ⟨c.redemptionId, ?_⟩, fun id hid => ?_, (hmember _ _).trans (if_pos rfl),
    fun w u hne => (hmember w u).trans (if_neg hne.symm), ?_,
    ⟨some c.userId, "member.invite.accept", c.userId,
      .inviteAccept row.role row.guestLinkId row.workspaceId⟩, ?_, rfl, rfl, ?_⟩
  · show R.guestLinks.get link.guestLinkId = _
    rw [hlinks, hkey]
    exact hmarked
  · show R.guestLinks.get id = _
    rw [hlinks]
    exact (hget id).trans (if_neg fun h => hid (h.trans hkey.symm))
  · have hcount' := memberCount_insert hmembers
    exact hcount'.trans_le hcount
  · show R.audit ++ [_] = _
    rw [haudit]
  · exact congrArg some hkey.symm

/-- **All or nothing**: a redemption accepts the link, or it changes nothing. -/
theorem Redemption.statements_accepts (c : Redemption) {row : GuestLink}
    (hfresh : Fresh S (some (.redemption c.redemptionId)))
    (h : c.statements row S = some T) :
    T = S ∨ ∃ link, Accepts S T link c.userId c.at' := by
  have hnone := redemptionId_filter hfresh row.guestLinkId
  have hunused : c.consume row.guestLinkId S = some S → T = S := by
    intro hconsume
    unfold Redemption.statements at h
    rw [hconsume, Option.bind_eq_bind, Option.bind_some] at h
    unfold Redemption.join at h
    rw [hnone] at h
    have hevent : c.event row S = S := by
      unfold Redemption.event
      rw [hnone]
    cases h
    exact hevent
  cases hlink : S.guestLinks.get row.guestLinkId with
  | none =>
      refine .inl (hunused ?_)
      unfold Redemption.consume
      rw [hlink]
  | some link =>
      by_cases hallowed : c.allowed S link = true
      · refine .inr ⟨link, ?_⟩
        unfold Redemption.statements at h
        obtain ⟨Q, hQ, h⟩ := Option.bind_eq_some_iff.mp h
        obtain ⟨R, hR, h⟩ := Option.bind_eq_some_iff.mp h
        cases h
        unfold Redemption.consume at hQ
        rw [hlink] at hQ
        dsimp only at hQ
        rw [if_pos hallowed] at hQ
        exact c.accepts hlink hallowed hQ hR
      · refine .inl (hunused ?_)
        unfold Redemption.consume
        rw [hlink]
        exact if_neg hallowed

/-! ## 3. What the other statements do -/

theorem Unaccepted.of_tables (hlinks : T.guestLinks = S.guestLinks) (haudit : T.audit = S.audit) :
    Unaccepted S T :=
  ⟨fun id l' hl' => .inl ⟨l', hlinks ▸ hl', rfl, rfl⟩, [], by rw [haudit, List.append_nil],
    by simp⟩

theorem Unaccepted.refl (S : Tables) : Unaccepted S S := .of_tables rfl rfl

/-- No redemption twice is none. -/
theorem Unaccepted.trans (h : Unaccepted S T) (h' : Unaccepted T R) : Unaccepted S R := by
  obtain ⟨new, hnew, hquiet⟩ := h.events
  obtain ⟨new', hnew', hquiet'⟩ := h'.events
  refine ⟨fun id l'' hl'' => ?_, new ++ new', by rw [hnew', hnew, List.append_assoc],
    fun e he => ?_⟩
  · rcases h'.links id l'' hl'' with ⟨l', hl', hconsumed', hid'⟩ | ⟨hconsumed, hunknown⟩
    · rcases h.links id l' hl' with ⟨l, hl, hconsumed, hid⟩ | ⟨hconsumed, hunknown⟩
      · exact .inl ⟨l, hl, hconsumed'.trans hconsumed, hid'.trans hid⟩
      · exact .inr ⟨hconsumed'.trans hconsumed, hunknown⟩
    · refine .inr ⟨hconsumed, fun e he => hunknown e ?_⟩
      rw [hnew]
      exact List.mem_append_left _ he
  · rcases List.mem_append.mp he with he | he
    · exact hquiet e he
    · exact hquiet' e he

theorem unaccepted_log (S : Tables) {e : AuditEvent} (he : e.detail.acceptedLink = none) :
    Unaccepted S { S with audit := S.audit ++ [e] } :=
  ⟨fun _ l' hl' => .inl ⟨l', hl', rfl, rfl⟩, [e], rfl, by simpa using he⟩

theorem bumpMember_unaccepted {members : Table Member}
    (h : Tables.bumpMember { S with members } w u = some T) : Unaccepted S T := by
  have h := bumpMember_eq h
  subst h
  exact .of_tables rfl rfl

/-- **No other change accepts a link.** -/
theorem Change.unaccepted (h : Change S T) : Unaccepted S T := by
  cases h with
  | setMemberRole _ h =>
      unfold Tables.setMemberRole at h
      split at h
      · cases h
        exact .refl S
      · exact bumpMember_unaccepted h
  | deleteMember _ h =>
      unfold Tables.deleteMember at h
      split at h
      · cases h
        exact .refl S
      · exact bumpMember_unaccepted h
  | insertMember h =>
      obtain ⟨hlinks, haudit, -⟩ := insertMember_frame h
      exact .of_tables hlinks haudit
  | updateUser _ _ h =>
      rcases updateUser_spec h with ⟨-, rfl⟩ | ⟨old, hu⟩
      · exact .refl _
      · obtain ⟨users, snapshots, rfl⟩ := hu.tables
        exact .of_tables rfl rfl
  | insertUser _ h =>
      obtain ⟨users, -, rfl⟩ := insertUser_eq h
      exact .of_tables rfl rfl
  | identities => exact .of_tables rfl rfl
  | bumpAccount h =>
      have h := bumpAccount_eq h
      subst h
      exact .of_tables rfl rfl
  | revokeLink h =>
      rename_i id revokedAt
      unfold Tables.revokeLink at h
      split at h
      · have h := bumpAccess_eq h
        subst h
        refine ⟨fun id' l' hl' => .inl ?_, [], (List.append_nil _).symm, by simp⟩
        have hget : (S.guestLinks.get id').map (fun l =>
            if l.guestLinkId = id then l.revoked revokedAt else l) = some l' := by
          rw [← hl']
          refine Eq.trans ?_ (Table.get_update (GuestLink.revoked_key revokedAt)).symm
          simp only [decide_eq_true_eq]
        obtain ⟨l, hl, rfl⟩ := Option.map_eq_some_iff.mp hget
        exact ⟨l, hl, by split <;> rfl, by split <;> rfl⟩
      · cases h
        exact .refl S
  | deleteLink h =>
      unfold Tables.deleteLink at h
      split at h
      · have h := bumpAccess_eq h
        subst h
        refine ⟨fun id' l' hl' => .inl ?_, [], (List.append_nil _).symm, by simp⟩
        have hl' : ((S.guestLinks.get id').filter _) = some l' := Table.get_delete.symm.trans hl'
        exact ⟨l', (Option.filter_eq_some_iff.mp hl').1, rfl, rfl⟩
      · cases h
        exact .refl S
  | allocate hsnapshot hcustody =>
      obtain ⟨snapshots, -, hsnapshot⟩ := Option.bind_eq_some_iff.mp hsnapshot
      cases hsnapshot
      obtain ⟨custody, -, rfl, -, -⟩ := insertCustody_eq hcustody
      exact .of_tables rfl rfl
  | insertDeletion h =>
      obtain ⟨deletions, -, h⟩ := Option.bind_eq_some_iff.mp h
      cases h
      exact .of_tables rfl rfl
  | closeDeletion w =>
      unfold Tables.closeDeletion
      split
      · split
        · exact .of_tables rfl rfl
        · exact .refl S
      · exact .refl S
  | content c h =>
      rcases updateState_eq h with rfl | rfl
      · exact .refl _
      · exact .of_tables rfl rfl
  | sessions => exact .of_tables rfl rfl
  | banDigests => exact .of_tables rfl rfl
  | allowance => exact .of_tables rfl rfl
  | log _ haccept => exact unaccepted_log S haccept

/-- Changes redeem no link. -/
theorem Changes.unaccepted (h : Changes S T) : Unaccepted S T := by
  induction h with
  | refl => exact .refl S
  | tail _ h ih => exact ih.trans h.unaccepted

theorem Concluded.unaccepted (h : Concluded S T) : Unaccepted S T := by
  obtain ⟨R, hR, rfl | ⟨w, -, rfl⟩⟩ := h
  · exact Changes.unaccepted hR
  · exact (Changes.unaccepted hR).trans (.of_tables rfl rfl)

/-- Nor do batches whose event accepts none. -/
theorem Batched.unaccepted (h : Batched (fun e => e.detail.acceptedLink = none) S T) :
    Unaccepted S T := by
  obtain ⟨R, hR, rfl | ⟨e, he, rfl⟩⟩ := h
  · exact Changes.unaccepted hR
  · exact (Changes.unaccepted hR).trans (unaccepted_log R he)

theorem setCustodian_unaccepted (h : S.setCustodian w u = some T) : Unaccepted S T := by
  unfold Tables.setCustodian at h
  split at h
  · split at h
    · cases h
    · cases h
      exact .of_tables rfl rfl
  · cases h
    exact .refl S

theorem AccountDeletion.statements_unaccepted (c : AccountDeletion)
    {transfers : List CustodyTransfer} (h : c.statements transfers S = some T) :
    Unaccepted S T := by
  unfold AccountDeletion.statements at h
  obtain ⟨Q, hQ, h⟩ := Option.bind_eq_some_iff.mp h
  have hQ : Unaccepted S Q := by
    unfold AccountDeletion.update at hQ
    split at hQ
    · rcases updateUser_spec hQ with ⟨-, rfl⟩ | ⟨old, hu⟩
      · exact .refl _
      · obtain ⟨users, snapshots, rfl⟩ := hu.tables
        exact .of_tables rfl rfl
    · cases hQ
      exact .refl _
  split at h
  · rename_i hdeleted
    obtain ⟨R, hR, hchanges, -⟩ := c.cleanup_cases (live_of_deletedAt hdeleted) h
    have hR : Unaccepted Q R := forRows_invariant (Unaccepted Q) (.refl Q)
      (fun X X' t _ hX h => hX.trans (by
        unfold AccountDeletion.handOver at h
        split at h
        · exact setCustodian_unaccepted h
        · cases h
          exact .refl X)) hR
    exact (hQ.trans hR).trans (Changes.unaccepted hchanges)
  · cases h
    exact hQ

/-- A link that is created is new. -/
theorem GuestLinkCreation.statements_unaccepted (c : GuestLinkCreation)
    (hfresh : Fresh S (some (.invitation c.guestLinkId))) (h : c.statements S = some T) :
    Unaccepted S T := by
  rcases c.statements_cases h with rfl | ⟨R, hR, rfl⟩
  · exact .refl _
  · unfold Tables.insertGuestLink at hR
    split at hR
    · cases hR
    · obtain ⟨guestLinks, hinsert, hR⟩ := Option.bind_eq_some_iff.mp hR
      have hR := bumpAccess_eq hR
      subst hR
      refine ⟨fun id l' hl' => ?_, _, rfl, by simp [AuditDetail.acceptedLink]⟩
      have hget : guestLinks.get id = if c.guestLinkId = id then some c.link
          else S.guestLinks.get id := Table.get_insert hinsert id
      have hl' : guestLinks.get id = some l' := hl'
      rw [hget] at hl'
      split at hl'
      · rename_i hid
        cases hl'
        exact .inr ⟨rfl, hid ▸ hfresh⟩
      · exact .inl ⟨l', hl', rfl, rfl⟩

/-! ## 4. Single use -/

theorem accepts_none {e : AuditEvent} (h : e.detail.acceptedLink = none) (id : String) :
    e.accepts id = false := by
  rw [AuditEvent.accepts, h]
  rfl

/-- Where none is redeemed, single use is kept. -/
theorem Unaccepted.singleUse (h : Unaccepted S T) (hS : SingleUse S) : SingleUse T := by
  obtain ⟨new, hnew, hquiet⟩ := h.events
  have hold : ∀ id, (∃ e ∈ T.audit, e.accepts id = true) ↔ ∃ e ∈ S.audit, e.accepts id = true := by
    intro id
    rw [hnew]
    constructor
    · rintro ⟨e, he, hid⟩
      rcases List.mem_append.mp he with he | he
      · exact ⟨e, he, hid⟩
      · rw [accepts_none (hquiet e he)] at hid
        cases hid
    · rintro ⟨e, he, hid⟩
      exact ⟨e, List.mem_append_left _ he, hid⟩
  refine ⟨fun id l' hl' => ?_, fun id => ?_⟩
  · rw [hold]
    rcases h.links id l' hl' with ⟨l, hl, hconsumed, -⟩ | ⟨hconsumed, hunknown⟩
    · rw [hconsumed]
      exact hS.used id l hl
    · rw [hconsumed]
      refine iff_of_false Bool.false_ne_true ?_
      rintro ⟨e, he, hid⟩
      rw [hunknown e he] at hid
      cases hid
  · have hzero : new.countP (·.accepts id) = 0 :=
      List.countP_eq_zero.mpr fun e he => by simp [accepts_none (hquiet e he)]
    rw [hnew, List.countP_append, hzero]
    exact hS.once id

/-- A redemption keeps it too. -/
theorem Accepts.singleUse {link : GuestLink} {at' : Timestamp} (h : Accepts S T link u at')
    (hS : SingleUse S) : SingleUse T := by
  obtain ⟨e, haudit, -, -, he⟩ := h.event
  have hunused : ∀ e ∈ S.audit, e.accepts link.guestLinkId = false := by
    intro e he
    by_contra hid
    have hused := (hS.used _ link h.stood).mpr ⟨e, he, by simpa using hid⟩
    rw [h.usable.2.1] at hused
    cases hused
  have hevent : ∀ id, e.accepts id = decide (link.guestLinkId = id) := fun id => by
    rw [AuditEvent.accepts, he]
    simp
  refine ⟨fun id l hl => ?_, fun id => ?_⟩
  · rw [haudit]
    by_cases hid : id = link.guestLinkId
    · obtain ⟨redemptionId, hmarked⟩ := h.marked
      rw [hid, hmarked, Option.some.injEq] at hl
      rw [← hl]
      refine iff_of_true rfl ⟨e, List.mem_append_right _ (List.mem_singleton_self e), ?_⟩
      rw [hevent, hid, decide_eq_true rfl]
    · rw [h.links id hid] at hl
      rw [hS.used id l hl]
      constructor
      · rintro ⟨e', he', haccepts⟩
        exact ⟨e', List.mem_append_left _ he', haccepts⟩
      · rintro ⟨e', he', haccepts⟩
        rcases List.mem_append.mp he' with he' | he'
        · exact ⟨e', he', haccepts⟩
        · rw [List.mem_singleton.mp he', hevent, decide_eq_true_eq] at haccepts
          exact absurd haccepts.symm hid
  · rw [haudit, List.countP_append, List.countP_singleton, hevent]
    by_cases hid : link.guestLinkId = id
    · have hzero : S.audit.countP (·.accepts id) = 0 :=
        List.countP_eq_zero.mpr fun e he => by simp [← hid, hunused e he]
      rw [hzero]
      split <;> omega
    · have := hS.once id
      simp only [hid, decide_false]
      exact this

end Batches

/-! ## 5. Runs -/

/-- The runs of the access operations from tables whose links were used once. -/
def guestAccess (digest : String → String → String) : Machine (Pool Tables Label) (Option Label) :=
  interleavings (fun T => Consistent T ∧ SingleUse T)
    fun p => ∃ operation : Operation, p = operation.program digest

/-- **What a step may do to guest links.** -/
def Redeems (label : Option Label) (S T : Tables) : Prop :=
  match label with
  | some (.redemption _) => T = S ∨ ∃ link userId at', Accepts S T link userId at'
  | _ => Unaccepted S T

/-- What the operations keep: each link is used once. -/
def guestDiscipline : Discipline Tables Label where
  inv := fun T => Consistent T ∧ SingleUse T
  rely := fun _ _ => True
  guarantee := Redeems
  ok := Fresh
  rely_refl := fun _ => trivial
  rely_trans := fun _ _ => trivial
  rely_of_guarantee := fun _ => trivial
  guarantee_refl := Unaccepted.refl

section Runs

variable {digest : String → String → String} {P : Pool Tables Label}

/-- A batch that redeems nothing keeps the discipline. -/
theorem guest_keeps {label : Option Label} {run : Tables → Option Tables}
    (hlabel : ∀ id, label ≠ some (.redemption id))
    (h : ∀ T T', Consistent T → Fresh T label → run T = some T' →
      Consistent T' ∧ Unaccepted T T') :
    Program.Keeps guestDiscipline label fun T => (run T).map ((), ·) := by
  rintro T ⟨hc, hT⟩ hok b t hrun
  obtain ⟨T', hT', heq⟩ := Option.map_eq_some_iff.mp hrun
  cases heq
  obtain ⟨hc', hquiet⟩ := h T t hc hok hT'
  refine ⟨⟨hc', hquiet.singleUse hT⟩, ?_⟩
  show Redeems label T t
  unfold Redeems
  split
  · exact absurd rfl (hlabel _)
  · exact hquiet

theorem guest_batched {run : Tables → Option Tables}
    (h : ∀ T T', Consistent T → run T = some T' →
      Batched (fun e => e.detail.acceptedLink = none) T T') :
    (batch run).Lawful guestDiscipline := by
  refine .exec (guest_keeps (by simp) fun T T' hc _ hrun => ?_)
  obtain ⟨R, hR, heq⟩ := h T T' hc hrun
  have hcR := (Changes.committed hc hR).consistent
  refine ⟨?_, Batched.unaccepted ⟨R, hR, heq⟩⟩
  rcases heq with rfl | ⟨e, -, rfl⟩
  · exact hcR
  · exact ⟨hcR.members, hcR.deleted⟩

/-- **Every operation leaves links to be used once.** -/
theorem Operation.guest (operation : Operation) (s : Tables) :
    (operation.program digest).wp guestDiscipline (fun _ _ => True) s := by
  refine operation.wp_of (fun run h => ?_) (fun label run hordinary h => ?_) (fun c => ?_)
    (fun c row => ?_) (fun c s => ?_) (fun c s => ?_) (fun c s => ?_) (fun c s => ?_) s
  · refine .exec (guest_keeps (by simp) fun T T' hc _ hrun => ?_)
    have hb := h T T' hc hrun
    exact ⟨(hb.committed hc).consistent, hb.unaccepted⟩
  · refine .execAs (guest_keeps (fun id h => ?_) fun T T' hc _ hrun => ?_)
    · rw [Option.some.inj h] at hordinary
      cases hordinary
    · have hb := h T T' hrun
      exact ⟨(Changes.committed hc hb).consistent, Changes.unaccepted hb⟩
  · exact .execAs (guest_keeps (by simp) fun T T' hc hfresh hrun =>
      ⟨(c.statements_committed hc hrun).consistent, c.statements_unaccepted hfresh hrun⟩)
  · refine .execAs fun T hT hfresh b t hrun => ?_
    obtain ⟨T', hT', heq⟩ := Option.map_eq_some_iff.mp hrun
    cases heq
    have hc := (c.statements_committed hT.1 hT').consistent
    rcases c.statements_accepts hfresh hT' with rfl | ⟨link, haccepts⟩
    · exact ⟨hT, .inl rfl⟩
    · exact ⟨⟨hc, haccepts.singleUse hT.2⟩, .inr ⟨link, c.userId, c.at', haccepts⟩⟩
  · exact (changeWorkspaceMemberRole_lawful fun _ => guest_batched fun T T' hc =>
      c.statements_batched hc fun _ => rfl).wp s
  · exact (removeWorkspaceMember_lawful fun _ => guest_batched fun T T' hc =>
      c.statements_batched hc fun _ => rfl).wp s
  · exact (leaveWorkspace_lawful fun _ => guest_batched fun T T' hc =>
      c.statements_batched hc fun _ => rfl).wp s
  · refine (executeAccountDeletion_lawful fun _ => ?_).wp s
    exact .execAs (guest_keeps (by simp) fun T T' hc _ hrun =>
      ⟨(c.statements_committed hc hrun).consistent, c.statements_unaccepted hrun⟩)

/-- **GUEST LINKS ARE SINGLE USE**: in every run a link is marked as used if and only if an event
    tells that it was accepted, and no link is accepted twice; a redemption accepts its link as a
    whole or changes nothing, and nothing else accepts a link. -/
theorem guestLinks_singleUse
    (hP : ((guestAccess digest).restrict fun P => Fresh P.store).Reachable P) :
    (∀ id l, P.store.guestLinks.get id = some l →
      (l.consumedAt.isSome = true ↔ ∃ e ∈ P.store.audit, e.accepts id = true)) ∧
    (∀ id, P.store.audit.countP (·.accepts id) ≤ 1) ∧
    ∀ label R, ((guestAccess digest).restrict fun P => Fresh P.store).step P label R →
      Redeems label P.store R.store := by
  have hprograms : ∀ p, (∃ operation : Operation, p = operation.program digest) →
      ∀ s, guestDiscipline.inv s → p.wp guestDiscipline (fun _ _ => True) s := by
    rintro p ⟨operation, rfl⟩ s -
    exact operation.guest s
  have hsound : Sound guestDiscipline P := reachable_sound (fun _ h => h) hprograms hP
  exact ⟨hsound.inv.2.used, hsound.inv.2.once,
    fun label R ⟨hok, hs⟩ => (step_sound hprograms hsound hok hs).2⟩

/-! ### Two visitors with one link -/

/-- A link of one workspace, not used yet. -/
def openLink : GuestLink where
  guestLinkId := "guest_1"
  workspaceId := "w"
  createdByUserId := "ann"
  tokenHash := "hash"
  role := .viewer
  createdAt := "2026-01-01T00:00:00.000Z"
  expiresAt := "2026-01-08T00:00:00.000Z"
  consumedAt := none
  revokedAt := none
  redemptionId := none

/-- A workspace with a link that nobody has used, and two accounts that are no members. -/
def invitingWorkspace : Tables :=
  { sharedWorkspace with
    users := ⟨[person "root" .admin, person "ann" .user, person "bob" .user, person "cas" .user,
      person "dan" .user], by decide +kernel⟩
    guestLinks := ⟨[openLink], by decide +kernel⟩ }

/-- A redemption of that link. -/
def redemption (userId : String) : Redemption where
  tokenHash := "hash"
  userId
  redemptionId := "redemption_" ++ userId
  at' := "2026-01-02T00:00:00.000Z"

/-- Both have found the link open before either uses it. -/
def bothVisit : List (Pool.Turn Tables Label) :=
  .start (consumeGuestLink (redemption "cas")) :: .start (consumeGuestLink (redemption "dan")) ::
    (List.replicate 3 (.run 0) ++ List.replicate 3 (.run 1) ++ [.run 0, .run 1])

/-- `Fresh`, as the rows tell. -/
def freshIn (T : Tables) : Option Label → Bool
  | some (.invitation guestLinkId) => T.audit.all fun e => !e.accepts guestLinkId
  | some (.redemption redemptionId) =>
    T.guestLinks.rows.all fun l => l.redemptionId ≠ some redemptionId
  | _ => true

theorem fresh_of_rows (T : Tables) (label : Option Label) (h : freshIn T label = true) :
    Fresh T label := by
  unfold freshIn at h
  unfold Fresh
  split at h
  · exact fun e he => by simpa using List.all_eq_true.mp h e he
  · exact fun id l hl => by simpa using List.all_eq_true.mp h l (Table.get_some hl).1
  · trivial

theorem bothVisit_run {P : Pool Tables Label}
    (h : Pool.follow ⟨invitingWorkspace, []⟩ bothVisit = some P) :
    ∃ labels, ((guestAccess markedDigest).restrict fun P => Fresh P.store).Run
      ⟨invitingWorkspace, []⟩ labels P := by
  refine Pool.follow_restrict fresh_of_rows (fun p hp => ?_) h (by decide +kernel)
  simp only [bothVisit, List.mem_cons, List.mem_append, List.mem_replicate,
    Pool.Turn.start.injEq, reduceCtorEq, and_false, List.not_mem_nil, or_false] at hp
  rcases hp with rfl | rfl
  · exact ⟨.consumeLink (redemption "cas"), rfl⟩
  · exact ⟨.consumeLink (redemption "dan"), rfl⟩

theorem invitingWorkspace_singleUse : Consistent invitingWorkspace ∧ SingleUse invitingWorkspace := by
  refine ⟨.of_rows (by decide +kernel) (by decide +kernel), fun id l hl => ?_, fun id => Nat.zero_le 1⟩
  obtain rfl : l = openLink := List.mem_singleton.mp (Table.get_some hl).1
  refine iff_of_false Bool.false_ne_true ?_
  rintro ⟨e, he, -⟩
  cases he

/-- One of the two becomes a member, and the link is used up for the other. -/
theorem guestLinks_singleUse_visit : ∃ P,
    ((guestAccess markedDigest).restrict fun P => Fresh P.store).Reachable P ∧
    P.store.role "w" "cas" = some .viewer ∧ P.store.role "w" "dan" = none ∧
    (∃ e ∈ P.store.audit, e.accepts "guest_1" = true) ∧
    P.store.audit.countP (·.accepts "guest_1") ≤ 1 := by
  have hfollows : (Pool.follow ⟨invitingWorkspace, []⟩ bothVisit).map (fun P =>
      (P.store.role "w" "cas", P.store.role "w" "dan",
        (P.store.guestLinks.get "guest_1").map (·.consumedAt.isSome))) =
          some (some .viewer, none, some true) := by decide +kernel
  obtain ⟨P, hP, hfacts⟩ := Option.map_eq_some_iff.mp hfollows
  obtain ⟨hcas, hrest⟩ := Prod.mk.inj hfacts
  obtain ⟨hdan, hlink⟩ := Prod.mk.inj hrest
  obtain ⟨l, hl, hused⟩ := Option.map_eq_some_iff.mp hlink
  obtain ⟨labels, hrun⟩ := bothVisit_run hP
  have hreachable : ((guestAccess markedDigest).restrict fun P => Fresh P.store).Reachable P :=
    ⟨_, labels, ⟨invitingWorkspace_singleUse, rfl⟩, hrun⟩
  have hsingle := guestLinks_singleUse hreachable
  exact ⟨P, hreachable, hcas, hdan, (hsingle.1 "guest_1" l hl).mp hused, hsingle.2.1 "guest_1"⟩

end Runs

end Stowplan.Governance
