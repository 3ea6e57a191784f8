/-
  File:      Stowplan/Client/Accounts.lean
  Subject:   WHOSE EDITS A BATCH CARRIES.

  Each edit is queued under the account that is signed in. A flush of a workspace the server
  knows takes only entries of the account that sends it. A flush of a device-only workspace takes
  every entry, so there the accounts stay apart only while no work of another account waits.

  * `AccountsApart`: every edit was sent by the account that made it;
  * `AccountsInv`, `step_accountsInv`: the accounts of the queue are those of the edits;
  * `flush_accountsApart`: runs whose flushes are scoped keep the accounts apart.
-/
import Stowplan.Client.Device

namespace Stowplan

/-! ## 1. The accounts of entries -/

/-- The entry carries a command of the list, under the account the command was queued under. -/
def Stamped (created : List Created) (e : OutboxEntry) : Prop :=
  ∃ c ∈ created, c.id = e.commandId ∧ ∀ a, c.account = some a → e.accountId = .id a.id

/-- **No account sends an edit of another.** -/
def AccountsApart (D : Device) : Prop :=
  ∀ b ∈ D.sent, ∀ e ∈ b.entries, ∀ c ∈ D.created, c.id = e.commandId →
    c.account = none ∨ c.account = some b.account

/-- The flush is of a workspace the server knows, or no work of another account waits. -/
def FlushScoped (_ : Device) : DeviceAction → Prop
  | .flush value account =>
    (normalizeWorkspaceAccessState value.authorization).kind = .server ∨
      hasForeignPendingWork value.outbox account.ref = false
  | _ => True

theorem Account.eq_of_id {a b : Account} (h : a.id = b.id) : a = b := by
  cases a
  cases b
  cases h
  rfl

theorem Account.optional_ref (a : Account) : a.ref.optional = some a.id := by
  have hb : blank a.id = false := by
    unfold blank
    rw [a.trimmed]
    simpa using a.nonempty
  simp [Account.ref, AccountRef.optional, optionalString, hb]

theorem Stamped.mono {created : List Created} {e : OutboxEntry} (h : Stamped created e)
    (more : List Created) : Stamped (created ++ more) e := by
  obtain ⟨c, hc, h⟩ := h
  exact ⟨c, List.mem_append_left _ hc, h⟩

theorem Stamped.follows {created : List Created} {e f : OutboxEntry} (h : Stamped created e)
    (hf : Follows e f) : Stamped created f := by
  obtain ⟨c, hc, hid, ha⟩ := h
  exact ⟨c, hc, hid.trans hf.id.symm,
    fun a hca => hf.account a.id a.trimmed a.nonempty (ha a hca)⟩

theorem stamped_queued {created : List Created} {E F : List OutboxEntry}
    (h : ∀ e ∈ E, Stamped created e) (hq : Queued E F) : ∀ f ∈ F, Stamped created f := by
  intro f hf
  obtain ⟨e, he, hef⟩ := hq.mem hf
  exact (h e he).follows hef

theorem stamped_remaining {created : List Created} {replica : LocalReplica}
    (h : ∀ e ∈ replica.outbox, Stamped created e) (sent : List OutboxEntry)
    (receipts : List SyncReceipt) : ∀ f ∈ remaining replica sent receipts, Stamped created f := by
  intro f hf
  obtain ⟨e, he, hr⟩ := List.mem_filterMap.mp hf
  exact (h e he).follows (remainingEntry_follows hr)

/-- A batch carries entries of the queue it was taken from. -/
theorem mem_of_flush {value : LocalReplica} {account : String} {allowEmpty : Bool}
    {batch : List OutboxEntry} (h : flushBatch value account allowEmpty = some batch)
    {e : OutboxEntry} (he : e ∈ batch) : e ∈ value.outbox ∧ e.status = .pending := by
  rw [flushBatch_select h] at he
  have hmem := (selectPendingSyncBatch_starts _ _).subset he
  simpa using List.mem_filter.mp hmem

/-- **A scoped flush takes only entries of its account**, and entries of no account. -/
theorem flush_account {D : Device} {value : LocalReplica} {account a : Account}
    {allowEmpty : Bool} {batch : List OutboxEntry} {e : OutboxEntry}
    (hs : FlushScoped D (.flush value account))
    (h : flushBatch value account.id allowEmpty = some batch) (he : e ∈ batch)
    (ha : e.accountId = .id a.id) : a = account := by
  have haccount : e.accountId.optional = some a.id := by
    rw [ha]
    exact a.optional_ref
  rcases hs with hserver | hforeign
  · rw [flushBatch_select h, if_pos hserver] at he
    have hmatch := selectPendingSyncBatch_account he
    unfold workspaceAccountIdsMatch at hmatch
    rw [haccount] at hmatch
    have hid : some a.id = some account.id :=
      (of_decide_eq_true hmatch).trans account.optional_ref
    exact Account.eq_of_id (Option.some.inj hid)
  · obtain ⟨hin, hpending⟩ := mem_of_flush h he
    unfold hasForeignPendingWork at hforeign
    rw [account.optional_ref] at hforeign
    have := List.any_eq_false.mp hforeign e hin
    rw [haccount] at this
    simp only [hpending, decide_true, Bool.true_and, Option.any_some, decide_eq_true_eq,
      not_not] at this
    exact Account.eq_of_id this

/-! ## 2. The invariant -/

/-- The invariant of a run on which accounts stay apart: every entry, read and sent batch carries
    the account it was made under. -/
structure AccountsInv (D : Device) : Prop where
  queue : NoEditLost D
  outbox : ∀ e ∈ D.replica.outbox, Stamped D.created e
  reads : ∀ v ∈ D.reads, ∀ e ∈ v.outbox, Stamped D.created e
  sent : ∀ b ∈ D.sent, ∀ e ∈ b.entries, Stamped D.created e
  apart : AccountsApart D

section Machine

variable [Host] [Collation]

omit [Host] [Collation] in
/-- A step that only changes the queue, entry by entry. -/
theorem AccountsInv.of_queue {D : Device} (h : AccountsInv D) {replica : LocalReplica}
    {acknowledged : List String} (hq : NoEditLost { D with
      replica
      acknowledged })
    (ho : ∀ e ∈ replica.outbox, Stamped D.created e) :
    AccountsInv { D with
      replica
      acknowledged } :=
  ⟨hq, ho, h.reads, h.sent, h.apart⟩

/-- **Every step keeps the invariant, where flushes are scoped.** -/
theorem step_accountsInv {D E : Device} {a : DeviceAction} (h : AccountsInv D)
    (hs : (device.restrict FlushScoped).step D a E) : AccountsInv E := by
  obtain ⟨hok, hs⟩ := hs
  have hqueue := step_noEditLost h.queue hs
  cases hs with
  | sign signedIn => exact ⟨hqueue, h.outbox, h.reads, h.sent, h.apart⟩
  | read value hn =>
      refine ⟨hqueue, h.outbox, ?_, h.sent, h.apart⟩
      intro v hv
      rcases List.mem_append.mp hv with hv | hv
      · exact h.reads v hv
      · rw [List.mem_singleton.mp hv]
        exact stamped_queued h.outbox (normalizeLocalReplica_queued hn).1
  | flush value account allowEmpty batch hv ha hf =>
      have hstamped : ∀ e ∈ batch, Stamped D.created e :=
        fun e he => h.reads value hv e (mem_of_flush hf he).1
      refine ⟨hqueue, h.outbox, h.reads, ?_, ?_⟩
      · intro b hb
        rcases List.mem_append.mp hb with hb | hb
        · exact h.sent b hb
        · rw [List.mem_singleton.mp hb]
          exact hstamped
      · intro b hb e he c hc hid
        rcases List.mem_append.mp hb with hb | hb
        · exact h.apart b hb e he c hc hid
        · rw [List.mem_singleton.mp hb] at he ⊢
          obtain ⟨c', hc', hid', hca⟩ := hstamped e he
          have hsame : c' = c :=
            List.inj_on_of_nodup_map h.queue.distinct hc' hc (hid'.trans hid.symm)
          rw [hsame] at hca
          cases haccount : c.account with
          | none => exact .inl rfl
          | some a =>
              rw [flush_account hok hf he (hca a haccount)]
              exact .inr rfl
  | edit replica terminal envelope updatedAt hnew hm =>
      obtain ⟨current, hn, hu⟩ := mutateWorkspaceReplica_ok.mp hm
      obtain ⟨r, -, rfl⟩ := enqueue_ok hu
      refine ⟨hqueue, ?_, fun v hv e he => (h.reads v hv e he).mono _,
        fun b hb e he => (h.sent b hb e he).mono _, ?_⟩
      · intro e he
        rcases List.mem_append.mp he with he | he
        · exact (stamped_queued h.outbox (normalizeLocalReplica_queued hn).1 e he).mono _
        · rw [List.mem_singleton.mp he]
          refine ⟨⟨envelope.id, D.signedIn⟩, List.mem_append_right _ List.mem_cons_self, rfl, ?_⟩
          intro a ha
          have ha : D.signedIn = some a := ha
          rw [ha]
          show outboxEntryAccountId a.ref = _
          unfold outboxEntryAccountId
          rw [a.optional_ref]
      · intro b hb e he c hc hid
        rcases List.mem_append.mp hc with hc | hc
        · exact h.apart b hb e he c hc hid
        · -- the identifier is new, and the entry carries an old one
          obtain ⟨c', hc', hid', -⟩ := h.sent b hb e he
          rw [List.mem_singleton.mp hc] at hid
          exact absurd (List.mem_map.mpr ⟨c', hc', hid'.trans hid.symm⟩) hnew
  | normalize replica hn =>
      exact h.of_queue hqueue (stamped_queued h.outbox (normalizeLocalReplica_queued hn).1)
  | success replica batch serverState receipts syncedAt context hb hm =>
      obtain ⟨current, hn, hu⟩ := mutateWorkspaceReplica_ok.mp hm
      obtain ⟨reconciled, hr, hq, -⟩ := applySuccessful_ok hu
      have hcurrent := stamped_queued h.outbox (normalizeLocalReplica_queued hn).1
      refine h.of_queue hqueue (stamped_queued ?_ hq)
      rcases reconcileReplica_queue hr with hsame | hsame
      · rw [hsame]
        exact hcurrent
      · rw [hsame]
        exact stamped_remaining hcurrent _ _
  | refusal replica batch receipts message attemptedAt definitive context hb hm =>
      obtain ⟨current, hn, hu⟩ := mutateWorkspaceReplica_ok.mp hm
      obtain rfl := Except.ok.inj hu
      exact h.of_queue hqueue (stamped_queued h.outbox
        ((normalizeLocalReplica_queued hn).1.trans (applyRefused_queued _ _ _ _ _ _ _)))
  | access replica authorization unchanged summary hm =>
      obtain ⟨current, hn, hu⟩ := mutateWorkspaceReplica_ok.mp hm
      exact h.of_queue hqueue (stamped_queued h.outbox
        ((normalizeLocalReplica_queued hn).1.trans (writeWorkspaceAuthorization_queued hu).1))
  | deletion replica authorization summary hm =>
      obtain ⟨current, hn, hu⟩ := mutateWorkspaceReplica_ok.mp hm
      exact h.of_queue hqueue (stamped_queued h.outbox
        ((normalizeLocalReplica_queued hn).1.trans (applyConfirmedServerDeletion_queued hu).1))
  | opening replica prepared summary hm =>
      obtain ⟨current, hn, hu⟩ := mutateWorkspaceReplica_ok.mp hm
      obtain rfl := Except.ok.inj hu
      exact h.of_queue hqueue (stamped_queued h.outbox
        ((normalizeLocalReplica_queued hn).1.trans (openServerWorkspace_queued _ _ _)))

/-- **The accounts stay apart in every run whose flushes are scoped**: each is of a workspace the
    server knows, or no work of another account waits in the queue it reads. -/
theorem flush_accountsApart (D : Device) (h : (device.restrict FlushScoped).Reachable D) :
    AccountsApart D := by
  refine (h.invariant (P := AccountsInv) ?_ fun _ _ _ hD hs => step_accountsInv hD hs).apart
  rintro D ⟨houtbox, hreads, hsent, hcreated, hack⟩
  have hnil : ∀ {α : Type} {l : List α} {P : α → Prop}, l = [] → ∀ x ∈ l, P x := by
    rintro α l P rfl x hx
    exact absurd hx List.not_mem_nil
  refine ⟨device_noEditLost D ⟨D, [], ⟨houtbox, hreads, hsent, hcreated, hack⟩, .nil D⟩,
    hnil houtbox, hnil hreads, hnil hsent, hnil hsent⟩

end Machine

/-- The account that edited sends its own edit. -/
theorem flush_accountsApart_own : ∃ D, D.sent ≠ [] ∧ AccountsApart D := by
  let : Host := asciiHost
  let : Collation := plainCollation
  have hrun : (editThenFlush firstAccount firstAccount).toOption.any (fun p => p.2.2.isSome &&
      !hasForeignPendingWork p.2.1.outbox firstAccount.ref) = true := by
    decide +kernel
  cases h : editThenFlush firstAccount firstAccount with
  | error e => rw [h] at hrun; cases hrun
  | ok p =>
      obtain ⟨replica, value, batch⟩ := p
      rw [h] at hrun
      simp only [Except.toOption, Option.any_some, Bool.and_eq_true, Bool.not_eq_true'] at hrun
      obtain ⟨hsome, hforeign⟩ := hrun
      obtain ⟨batch, rfl⟩ := Option.isSome_iff_exists.mp hsome
      refine ⟨_, List.cons_ne_nil _ _, flush_accountsApart _
        (flushedDevice_reachable h (fun _ a ha => ?_) fun _ => .inr hforeign)⟩
      cases a with
      | flush v b => exact absurd rfl (ha v b)
      | _ => trivial

/-- The edit of one account, in a workspace the server does not know yet, is sent by the account
    that signs in next. -/
theorem flush_crosses_accounts :
    ¬ ∀ D, (@device asciiHost plainCollation).Reachable D → AccountsApart D := by
  let : Host := asciiHost
  let : Collation := plainCollation
  intro hall
  have hrun : (editThenFlush firstAccount secondAccount).toOption.any (fun p =>
      p.2.2.any fun batch => batch.any fun e => e.commandId == "c1") = true := by
    decide +kernel
  cases h : editThenFlush firstAccount secondAccount with
  | error e => rw [h] at hrun; cases hrun
  | ok p =>
      obtain ⟨replica, value, batch⟩ := p
      rw [h] at hrun
      cases batch with
      | none => cases hrun
      | some batch =>
          simp only [Except.toOption, Option.any_some, List.any_eq_true, beq_iff_eq] at hrun
          obtain ⟨e, he, hid⟩ := hrun
          have hreach : (device.restrict fun _ _ => True).Reachable _ :=
            flushedDevice_reachable h (fun _ _ _ => trivial) fun _ => trivial
          have happart := hall _ hreach.of_restrict ⟨secondAccount, batch⟩ List.mem_cons_self e he
            ⟨"c1", some firstAccount⟩ List.mem_cons_self hid.symm
          rcases happart with hnone | hsome
          · cases hnone
          · have hid : some "usr_a" = some "usr_b" := congrArg (Option.map Account.id) hsome
            exact absurd hid (by decide)

end Stowplan
