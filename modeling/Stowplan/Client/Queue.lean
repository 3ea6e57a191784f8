/-
  File:      Stowplan/Client/Queue.lean
  Subject:   WHAT BECOMES OF THE ENTRIES OF A QUEUE.

  Every function that rewrites a queue, except the one that takes acknowledged entries out of it,
  keeps each entry in its place: `Follows` says what stays the same of an entry.

  * `Follows`, `Queued`: an entry and a queue, after a rewrite;
  * `normalizeLocalReplica_queued`, `applyServerContext_queued`, …: one lemma per function;
  * `reconcileReplica_queue`: the entries that stay are those without an acknowledgement.
-/
import Stowplan.Client.Reconciliation

namespace Stowplan

open Keyed

/-! ## 1. One entry -/

/-- What stays the same of an entry: the command it carries, the revision that was based on, the
    account it was made under, and a block that was put on it. -/
structure Follows (e f : OutboxEntry) : Prop where
  id : f.commandId = e.commandId
  base : f.envelope.baseRevision = e.envelope.baseRevision
  workspace : f.envelope.workspaceId = e.envelope.workspaceId
  account : ∀ a, trim a = a → a ≠ "" → e.accountId = .id a → f.accountId = .id a
  blocked : e.status = .blocked → f.status = .blocked

/-- Entries that follow those of a queue, one by one. -/
def Queued (E F : List OutboxEntry) : Prop := List.Forall₂ Follows E F

theorem Follows.refl (e : OutboxEntry) : Follows e e := ⟨rfl, rfl, rfl, fun _ _ _ h => h, fun h => h⟩

/-- An entry that was changed twice is still the entry it was. -/
theorem Follows.trans {e f g : OutboxEntry} (h : Follows e f) (h' : Follows f g) : Follows e g :=
  ⟨h'.id.trans h.id, h'.base.trans h.base, h'.workspace.trans h.workspace,
    fun a ht hn ha => h'.account a ht hn (h.account a ht hn ha), fun hb => h'.blocked (h.blocked hb)⟩

theorem Queued.refl (E : List OutboxEntry) : Queued E E :=
  List.forall₂_same.mpr fun e _ => .refl e

/-- A queue that was changed twice still has its entries, in their order. -/
theorem Queued.trans {E F G : List OutboxEntry} (h : Queued E F) (h' : Queued F G) :
    Queued E G := by
  induction h generalizing G with
  | nil =>
      cases h'
      exact .nil
  | cons hef _ ih =>
      cases h' with
      | cons hfg hrest => exact .cons (hef.trans hfg) (ih hrest)

/-- A change of every entry is a change of the queue. -/
theorem queued_map {f : OutboxEntry → OutboxEntry} (hf : ∀ e, Follows e (f e))
    (E : List OutboxEntry) : Queued E (E.map f) :=
  List.forall₂_map_right_iff.mpr (List.forall₂_same.mpr fun e _ => hf e)

/-- A rewrite keeps the identifiers, in order. -/
theorem Queued.ids {E F : List OutboxEntry} (h : Queued E F) :
    F.map (·.commandId) = E.map (·.commandId) := by
  induction h with
  | nil => rfl
  | cons hef _ ih => rw [List.map_cons, List.map_cons, hef.id, ih]

/-- No entry is lost or added. -/
theorem Queued.length_eq {E F : List OutboxEntry} (h : Queued E F) : F.length = E.length := by
  have := congrArg List.length h.ids
  simpa using this

/-- Each entry comes from one that was there. -/
theorem Queued.mem {E F : List OutboxEntry} (h : Queued E F) {f : OutboxEntry} (hf : f ∈ F) :
    ∃ e ∈ E, Follows e f := by
  induction h with
  | nil => exact absurd hf List.not_mem_nil
  | @cons e g E F heg _ ih =>
      rcases List.mem_cons.mp hf with rfl | hf
      · exact ⟨e, List.mem_cons_self, heg⟩
      · obtain ⟨e', he', h'⟩ := ih hf
        exact ⟨e', List.mem_cons_of_mem _ he', h'⟩

theorem follows_block (e : OutboxEntry) (error : String) : Follows e (e.block error) :=
  ⟨rfl, rfl, rfl, fun _ _ _ h => h, fun _ => rfl⟩

/-! ## 2. The queue after a change of access -/

theorem follows_attribute (e : OutboxEntry) (accountId : AccountRef) :
    Follows e (e.attribute accountId) := by
  unfold OutboxEntry.attribute
  split
  · rename_i hu
    exact ⟨rfl, rfl, rfl, fun a _ _ ha => absurd (hu.symm.trans ha) (by simp), fun h => h⟩
  · exact .refl e

theorem follows_retain (e : OutboxEntry) : Follows e e.retain := by
  unfold OutboxEntry.retain
  split
  · rename_i hu
    simp only [Bool.and_eq_true, decide_eq_true_eq] at hu
    exact ⟨rfl, rfl, rfl, fun a _ _ ha => absurd (hu.2.symm.trans ha) (by simp), fun _ => rfl⟩
  · exact .refl e

/-- Giving the entries to an account, or setting them aside, loses none. -/
theorem scopeOutboxForWorkspaceAccount_queued (outbox : List OutboxEntry)
    (current candidate : WorkspaceAccessState) :
    Queued outbox (scopeOutboxForWorkspaceAccount outbox current candidate) := by
  unfold scopeOutboxForWorkspaceAccount
  split
  · exact .refl _
  · split
    · exact queued_map (fun e => follows_attribute e _) _
    · split
      · exact .refl _
      · split
        · exact queued_map (fun e => follows_attribute e _) _
        · exact queued_map follows_retain _

/-- Nor does the deletion of the workspace. -/
theorem blockPendingOutbox_queued (outbox : List OutboxEntry) :
    Queued outbox (blockPendingOutboxAfterServerDeletion outbox) := by
  refine queued_map (fun e => ?_) _
  split
  · exact follows_block e _
  · exact .refl e

/-- **A change of access keeps the queue.** -/
theorem scopeOutbox_queued (outbox : List OutboxEntry) (current candidate : WorkspaceAccessState) :
    Queued outbox (scopeOutboxForWorkspaceAccess outbox current candidate) := by
  have h := scopeOutboxForWorkspaceAccount_queued outbox current candidate
  unfold scopeOutboxForWorkspaceAccess
  dsimp only
  split
  · exact h.trans (blockPendingOutbox_queued _)
  · exact h

section Context

variable [Collation]

theorem applyServerContext_queued (replica : LocalReplica) (context : SyncServerContext) :
    Queued replica.outbox (applyServerContext replica context).outbox :=
  scopeOutbox_queued _ _ _

/-- A refusal keeps the queue, whatever receipts it carries. -/
theorem applyRefused_queued (replica : LocalReplica) (sent : List OutboxEntry)
    (receipts : List SyncReceipt) (message attemptedAt : String) (definitive : Bool)
    (context : SyncServerContext) :
    Queued replica.outbox
      (applyRefusedSyncResponse replica sent receipts message attemptedAt definitive context).outbox
    := by
  have h := applyServerContext_queued replica context
  unfold applyRefusedSyncResponse
  dsimp only
  split
  · refine h.trans (queued_map (fun e => ?_) _)
    unfold refuseEntry
    split
    · exact .refl e
    · exact follows_block e _
  · exact h

/-- A confirmed deletion keeps the queue for recovery. -/
theorem applyConfirmedServerDeletion_queued {current next : LocalReplica}
    {authorization : WorkspaceAccessState} {summary : Option (Option ServerWorkspaceSummary)}
    (h : applyConfirmedServerDeletion current authorization summary = .ok next) :
    Queued current.outbox next.outbox ∧ next.state = current.state := by
  unfold applyConfirmedServerDeletion at h
  dsimp only at h
  split at h
  · cases h
  · obtain ⟨_, -, h⟩ := except_bind_ok.mp h
    rw [← Except.ok.inj h]
    exact ⟨scopeOutbox_queued _ _ _, rfl⟩

/-- A change of the access keeps the queue. -/
theorem writeWorkspaceAuthorization_queued {current next : LocalReplica}
    {authorization : WorkspaceAccessState} {unchanged : Bool}
    {summary : Option (Option ServerWorkspaceSummary)}
    (h : writeWorkspaceAuthorization current authorization unchanged summary = .ok next) :
    Queued current.outbox next.outbox ∧ next.state = current.state := by
  unfold writeWorkspaceAuthorization at h
  obtain ⟨_, -, h⟩ := except_bind_ok.mp h
  dsimp only at h
  split at h
  · cases h
  · rw [← Except.ok.inj h]
    exact ⟨scopeOutbox_queued _ _ _, rfl⟩

/-- Opening a workspace of the server keeps the queue. -/
theorem openServerWorkspace_queued (existing : LocalReplica) (prepared : WorkspaceAccessState)
    (summary : ServerWorkspaceSummary) :
    Queued existing.outbox (openServerWorkspace existing prepared summary).outbox :=
  scopeOutbox_queued _ _ _

end Context

/-! ## 3. A stored queue, read again -/

theorem follows_normalize (e : OutboxEntry) : Follows e e.normalize := by
  refine ⟨rfl, rfl, rfl, ?_, fun h => h⟩
  intro a ht hn ha
  show e.accountId.normalize = _
  have hb : blank a = false := by
    unfold blank
    rw [ht]
    simpa using hn
  rw [ha, AccountRef.normalize, if_neg (by rw [hb]; decide), ht]

theorem orderOutbox_queued (items : List ItemRecord) (inferred : List (String × JsNumber))
    (outbox : List OutboxEntry) : Queued outbox (orderOutbox items inferred outbox) := by
  induction outbox generalizing inferred with
  | nil => exact .nil
  | cons e rest ih => exact .cons ⟨rfl, rfl, rfl, fun _ _ _ h => h, fun h => h⟩ (ih _)

/-- Normalising keeps the queue. -/
theorem normalizeOutbox_queued (items : List ItemRecord) (outbox : List OutboxEntry) :
    Queued outbox (normalizeOutbox items outbox) :=
  (queued_map follows_normalize outbox).trans (orderOutbox_queued items _ _)

/-- The state of a replica is normalised as a stored one is. -/
theorem normalizedState_ok {s t : WorkspaceState} :
    normalizedState s = .ok t ↔ normalized s = some t := by
  unfold normalizedState
  cases normalized s <;> simp

/-- **Reading a stored replica keeps its queue**, and the records of its state. -/
theorem normalizeLocalReplica_queued {replica next : LocalReplica}
    (h : normalizeLocalReplica replica = .ok next) :
    Queued replica.outbox next.outbox ∧ normalized replica.state = some next.state := by
  unfold normalizeLocalReplica at h
  obtain ⟨state, hstate, h⟩ := except_bind_ok.mp h
  rw [← Except.ok.inj h]
  exact ⟨normalizeOutbox_queued _ _, normalizedState_ok.mp hstate⟩

/-! ## 4. Batches -/

/-- A batch is taken from the waiting entries, in order. -/
theorem selectPendingSyncBatch_starts (outbox : List OutboxEntry) (accountId : Option AccountRef) :
    selectPendingSyncBatch outbox accountId <+: outbox.filter fun e => e.status = .pending := by
  unfold selectPendingSyncBatch
  dsimp only
  split
  · exact List.nil_prefix
  · rename_i first rest hpending
    split
    · exact List.nil_prefix
    · exact (List.take_prefix _ _).trans (List.takeWhile_prefix _)

/-- A batch that is scoped to an account has only entries of the account. -/
theorem selectPendingSyncBatch_account {outbox : List OutboxEntry} {accountId : AccountRef}
    {e : OutboxEntry} (h : e ∈ selectPendingSyncBatch outbox (some accountId)) :
    workspaceAccountIdsMatch e.accountId accountId = true := by
  unfold selectPendingSyncBatch at h
  dsimp only at h
  split at h
  · exact absurd h List.not_mem_nil
  · split at h
    · exact absurd h List.not_mem_nil
    · unfold batchFrom at h
      have := (List.all_eq_true.mp List.all_takeWhile) e (List.mem_of_mem_take h)
      simp only [Option.all_some, Bool.and_eq_true] at this
      exact this.1

/-- What a flush sends is the batch selected from the queue. -/
theorem flushBatch_select {value : LocalReplica} {requestAccountId : String} {allowEmpty : Bool}
    {batch : List OutboxEntry} (h : flushBatch value requestAccountId allowEmpty = some batch) :
    batch = selectPendingSyncBatch value.outbox
      (if (normalizeWorkspaceAccessState value.authorization).kind = .server then
        some (.id requestAccountId) else none) := by
  unfold flushBatch at h
  simp only at h
  split at h
  · cases h
  · rw [ite_eq_iff, ite_eq_iff] at h
    rcases h with ⟨-, h⟩ | ⟨-, ⟨-, h⟩ | ⟨-, h⟩⟩
    · cases h
    · cases h
    · exact (Option.some.inj h).symm

/-! ## 5. Responses -/

/-- An entry that a response leaves is one that was there. -/
theorem remainingEntry_follows {sentIds : List String} {receipts : List SyncReceipt}
    {e f : OutboxEntry} (h : remainingEntry sentIds receipts e = some f) : Follows e f := by
  unfold remainingEntry at h
  split at h
  · rw [← Option.some.inj h]
    exact .refl e
  · split at h
    · split at h
      · cases h
      · rw [← Option.some.inj h]
        exact follows_block e _
    · rw [← Option.some.inj h]
      exact follows_block e _

/-- An entry leaves the queue only with an acknowledgement of its command. -/
theorem remainingEntry_none {sentIds : List String} {receipts : List SyncReceipt}
    {e : OutboxEntry} :
    remainingEntry sentIds receipts e = none ↔ e.commandId ∈ sentIds ∧
      ∃ r, receiptOf receipts e.commandId = some r ∧ r.saved = true := by
  unfold remainingEntry
  by_cases hin : e.commandId ∈ sentIds
  · rw [if_neg (by simpa using hin)]
    cases hr : receiptOf receipts e.commandId with
    | none => simp
    | some r => by_cases hs : r.saved = true <;> simp [hs, hin]
  · rw [if_pos (by simpa using hin)]
    simp [hin]

section Reconcile

variable [Host]

/-- The state shown after a response: the old one while anything is set aside, else the server's
    with the queue applied to it. -/
theorem rebasedState_ok {latest serverNormalized state : WorkspaceState}
    {outbox : List OutboxEntry} :
    rebasedState latest serverNormalized outbox = .ok state ↔
      ((∃ e ∈ outbox, e.status = .blocked) ∧ state = latest) ∨
      ((∀ e ∈ outbox, e.status ≠ .blocked) ∧ applyAll serverNormalized outbox = .ok state) := by
  unfold rebasedState
  by_cases hb : ∃ e ∈ outbox, e.status = .blocked
  · rw [if_pos (by simpa using hb), Except.ok.injEq]
    constructor
    · exact fun h => .inl ⟨hb, h.symm⟩
    · rintro (⟨-, h⟩ | ⟨h, -⟩)
      · exact h.symm
      · obtain ⟨e, he, hs⟩ := hb
        exact absurd hs (h e he)
  · rw [if_neg (by simpa using hb)]
    constructor
    · exact fun h => .inr ⟨fun e he hs => hb ⟨e, he, hs⟩, h⟩
    · rintro (⟨h, -⟩ | ⟨-, h⟩)
      · exact absurd h hb
      · exact h

/-- **What a response makes of a replica**: nothing if it is set aside; otherwise the entries it
    acknowledges leave the queue, and the state stays as it is while an entry is blocked, and is
    the snapshot with the rest of the queue applied otherwise. -/
theorem reconcileReplica_ok {latest next : LocalReplica} {sent : List OutboxEntry}
    {serverState : WorkspaceState} {receipts : List SyncReceipt} :
    reconcileReplica latest sent serverState receipts = .ok next ↔
      (setAside latest sent serverState = true ∧ next = latest) ∨
      (setAside latest sent serverState = false ∧ ∃ t state, normalized serverState = some t ∧
        rebasedState latest.state t (remaining latest sent receipts) = .ok state ∧
        next = { latest with
          outbox := remaining latest sent receipts
          state }) := by
  unfold reconcileReplica
  cases hs : setAside latest sent serverState with
  | true =>
      rw [if_pos rfl, Except.ok.injEq]
      simp [eq_comm]
  | false =>
      rw [if_neg Bool.false_ne_true]
      constructor
      · intro h
        obtain ⟨t, ht, h⟩ := except_bind_ok.mp h
        obtain ⟨state, hstate, h⟩ := except_bind_ok.mp h
        exact .inr ⟨rfl, t, state, normalizedState_ok.mp ht, hstate, (Except.ok.inj h).symm⟩
      · rintro (⟨h, -⟩ | ⟨-, t, state, ht, hstate, rfl⟩)
        · cases h
        · exact except_bind_ok.mpr ⟨t, normalizedState_ok.mpr ht,
            except_bind_ok.mpr ⟨state, hstate, rfl⟩⟩

/-- A response keeps each entry it does not acknowledge, in order. -/
theorem reconcileReplica_queue {latest next : LocalReplica} {sent : List OutboxEntry}
    {serverState : WorkspaceState} {receipts : List SyncReceipt}
    (h : reconcileReplica latest sent serverState receipts = .ok next) :
    next.outbox = latest.outbox ∨ next.outbox = remaining latest sent receipts := by
  rcases reconcileReplica_ok.mp h with ⟨-, rfl⟩ | ⟨-, t, state, -, -, rfl⟩
  · exact .inl rfl
  · exact .inr rfl

end Reconcile

end Stowplan
