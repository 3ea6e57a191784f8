/-
  File:      Stowplan/Client/Device.lean
  Subject:   ONE DEVICE: accounts come and go, edits are queued, batches go out, answers come back.

  The order of these is not controlled. An answer may come late, more than once or never, and
  tell anything; access to the workspace may change in between. Every change of the stored
  replica normalises it first.

  * `device`: the machine;
  * `NoEditLost`, `device_noEditLost`: every queued command waits, is blocked, or was
    acknowledged.
-/
import Stowplan.Client.Queue

namespace Stowplan

open Keyed

/-! ## 1. The machine -/

/-- A signed-in account: an identifier the server made. -/
structure Account where
  id : String
  trimmed : trim id = id
  nonempty : id ≠ ""
  deriving DecidableEq

/-- The account an entry is stamped with. -/
def Account.ref (account : Account) : AccountRef := .id account.id

/-- `accountIdRef.current`. -/
def accountRef (signedIn : Option Account) : AccountRef :=
  match signedIn with
  | some account => account.ref
  | none => .null

/-- A batch that was sent, and the account that was signed in then. -/
structure SentBatch where
  account : Account
  entries : List OutboxEntry

/-- A command that was queued, and the account that was signed in then. -/
structure Created where
  id : String
  account : Option Account

/-- The device: its replica, who is signed in, and what flushes have read and sent. The commands
    queued so far and those an answer called saved are kept beside. -/
structure Device where
  replica : LocalReplica
  signedIn : Option Account
  reads : List LocalReplica
  sent : List SentBatch
  created : List Created
  acknowledged : List String

/-- What happens on a device. -/
inductive DeviceAction where
  | sign
  | edit
  | normalize
  | read
  | flush (value : LocalReplica) (account : Account)
  | success
  | refusal
  | access
  | deletion
  | opening

section Machine

variable [Host] [Collation]

/-- The commands a list of receipts calls saved. -/
def savedIds (receipts : List SyncReceipt) : List String :=
  (receipts.filter (·.saved)).map (·.commandId)

/-- One step of the device: what it does by itself, and each response it may receive. -/
inductive DeviceStep : Device → DeviceAction → Device → Prop where
  | sign (D : Device) (signedIn : Option Account) : DeviceStep D .sign { D with signedIn }
  /-- `dispatch`; the identifier of the command is new. -/
  | edit (D : Device) (replica : LocalReplica) (terminal : Option WorkspaceAccessState)
      (envelope : CommandEnvelope) (updatedAt : String)
      (hnew : envelope.id ∉ D.created.map (·.id))
      (h : mutateWorkspaceReplica D.replica
        (enqueue · (accountRef D.signedIn) terminal envelope updatedAt) = .ok replica) :
      DeviceStep D .edit { D with
        replica
        created := D.created ++ [⟨envelope.id, D.signedIn⟩] }
  | normalize (D : Device) (replica : LocalReplica)
      (h : normalizeLocalReplica D.replica = .ok replica) :
      DeviceStep D .normalize { D with replica }
  /-- A flush reads the replica; it sends later. -/
  | read (D : Device) (value : LocalReplica) (h : normalizeLocalReplica D.replica = .ok value) :
      DeviceStep D .read { D with reads := D.reads ++ [value] }
  | flush (D : Device) (value : LocalReplica) (account : Account) (allowEmpty : Bool)
      (batch : List OutboxEntry) (hv : value ∈ D.reads) (ha : D.signedIn = some account)
      (h : flushBatch value account.id allowEmpty = some batch) :
      DeviceStep D (.flush value account) { D with sent := D.sent ++ [⟨account, batch⟩] }
  | success (D : Device) (replica : LocalReplica) (batch : SentBatch)
      (serverState : WorkspaceState) (receipts : List SyncReceipt) (syncedAt : String)
      (context : SyncServerContext) (hb : batch ∈ D.sent)
      (h : mutateWorkspaceReplica D.replica (applySuccessfulSyncResponse · batch.entries
        serverState receipts syncedAt context) = .ok replica) :
      DeviceStep D .success { D with
        replica
        acknowledged := D.acknowledged ++ savedIds receipts }
  | refusal (D : Device) (replica : LocalReplica) (batch : SentBatch)
      (receipts : List SyncReceipt) (message attemptedAt : String) (definitive : Bool)
      (context : SyncServerContext) (hb : batch ∈ D.sent)
      (h : mutateWorkspaceReplica D.replica (fun latest => .ok (applyRefusedSyncResponse latest
        batch.entries receipts message attemptedAt definitive context)) = .ok replica) :
      DeviceStep D .refusal { D with replica }
  | access (D : Device) (replica : LocalReplica) (authorization : WorkspaceAccessState)
      (unchanged : Bool) (summary : Option (Option ServerWorkspaceSummary))
      (h : mutateWorkspaceReplica D.replica
        (writeWorkspaceAuthorization · authorization unchanged summary) = .ok replica) :
      DeviceStep D .access { D with replica }
  | deletion (D : Device) (replica : LocalReplica) (authorization : WorkspaceAccessState)
      (summary : Option (Option ServerWorkspaceSummary))
      (h : mutateWorkspaceReplica D.replica
        (applyConfirmedServerDeletion · authorization summary) = .ok replica) :
      DeviceStep D .deletion { D with replica }
  | opening (D : Device) (replica : LocalReplica) (prepared : WorkspaceAccessState)
      (summary : ServerWorkspaceSummary)
      (h : mutateWorkspaceReplica D.replica
        (fun existing => .ok (openServerWorkspace existing prepared summary)) = .ok replica) :
      DeviceStep D .opening { D with replica }

/-- A device that has queued nothing yet. -/
def device : Machine Device DeviceAction where
  init D := D.replica.outbox = [] ∧ D.reads = [] ∧ D.sent = [] ∧ D.created = [] ∧
    D.acknowledged = []
  step := DeviceStep

/-! ## 2. What each step makes of the queue -/

omit [Host] [Collation] in
theorem mutateWorkspaceReplica_ok {replica next : LocalReplica}
    {update : LocalReplica → Result LocalReplica} :
    mutateWorkspaceReplica replica update = .ok next ↔
      ∃ current, normalizeLocalReplica replica = .ok current ∧ update current = .ok next :=
  except_bind_ok

omit [Collation] in
theorem enqueue_ok {current next : LocalReplica} {accountId : AccountRef}
    {terminal : Option WorkspaceAccessState} {envelope : CommandEnvelope} {updatedAt : String}
    (h : enqueue current accountId terminal envelope updatedAt = .ok next) :
    ∃ r, applyCommand current.state envelope = .ok r ∧ next = { current with
      outbox := current.outbox ++ [⟨outboxEntryAccountId accountId, envelope, none, .pending⟩]
      state := r.state
      updatedAt } := by
  unfold enqueue at h
  obtain ⟨_, -, h⟩ := except_bind_ok.mp h
  obtain ⟨r, hr, h⟩ := except_bind_ok.mp h
  exact ⟨r, hr, (Except.ok.inj h).symm⟩

theorem applySuccessful_ok {replica next : LocalReplica} {sent : List OutboxEntry}
    {serverState : WorkspaceState} {receipts : List SyncReceipt} {syncedAt : String}
    {context : SyncServerContext}
    (h : applySuccessfulSyncResponse replica sent serverState receipts syncedAt context =
      .ok next) :
    ∃ reconciled, reconcileReplica replica sent serverState receipts = .ok reconciled ∧
      Queued reconciled.outbox next.outbox ∧ next.state = reconciled.state := by
  unfold applySuccessfulSyncResponse at h
  obtain ⟨reconciled, hr, h⟩ := except_bind_ok.mp h
  rw [← Except.ok.inj h]
  exact ⟨reconciled, hr, applyServerContext_queued _ _, rfl⟩

omit [Host] [Collation] in
/-- A command that a response removes is one it calls saved. -/
theorem saved_of_removed {sentIds : List String} {receipts : List SyncReceipt} {e : OutboxEntry}
    (h : remainingEntry sentIds receipts e = none) : e.commandId ∈ savedIds receipts := by
  obtain ⟨-, r, hr, hs⟩ := remainingEntry_none.mp h
  obtain ⟨hmem, hid⟩ := findKey_some hr
  exact List.mem_map.mpr ⟨r, List.mem_filter.mpr ⟨List.mem_reverse.mp hmem, hs⟩, hid⟩

omit [Host] [Collation] in
/-- A response keeps the identifiers that it does not call saved, in order. -/
theorem remaining_ids (replica : LocalReplica) (sent : List OutboxEntry)
    (receipts : List SyncReceipt) :
    ((remaining replica sent receipts).map (·.commandId)).Sublist
        (replica.outbox.map (·.commandId)) ∧
      ∀ id ∈ replica.outbox.map (·.commandId),
        id ∈ (remaining replica sent receipts).map (·.commandId) ∨ id ∈ savedIds receipts := by
  unfold remaining
  induction replica.outbox with
  | nil => exact ⟨List.Sublist.slnil, fun _ h => absurd h List.not_mem_nil⟩
  | cons e outbox ih =>
      rw [List.filterMap_cons]
      cases hr : remainingEntry (sent.map (·.commandId)) receipts e with
      | none =>
          refine ⟨ih.1.trans (List.sublist_cons_self _ _), fun id hid => ?_⟩
          rcases List.mem_cons.mp hid with rfl | hid
          · exact .inr (saved_of_removed hr)
          · exact ih.2 id hid
      | some f =>
          have hf := (remainingEntry_follows hr).id
          rw [List.map_cons, List.map_cons, hf]
          refine ⟨ih.1.cons_cons _, fun id hid => ?_⟩
          rcases List.mem_cons.mp hid with rfl | hid
          · exact .inl List.mem_cons_self
          · exact (ih.2 id hid).imp (List.mem_cons_of_mem _) fun h => h

/-! ## 3. No queued edit is lost -/

/-- The queue holds commands that were queued, each once and in the order they were queued in;
    a command that is no longer there was called saved. -/
structure NoEditLost (D : Device) : Prop where
  order : (D.replica.outbox.map (·.commandId)).Sublist (D.created.map (·.id))
  distinct : (D.created.map (·.id)).Nodup
  once : (D.replica.outbox.map (·.commandId)).Nodup
  kept : ∀ c ∈ D.created,
    c.id ∈ D.replica.outbox.map (·.commandId) ∨ c.id ∈ D.acknowledged

omit [Host] [Collation] in
/-- A step that keeps the identifiers of the queue loses no edit. -/
theorem NoEditLost.of_ids {D E : Device} (h : NoEditLost D)
    (hids : E.replica.outbox.map (·.commandId) = D.replica.outbox.map (·.commandId))
    (hc : E.created = D.created) (ha : E.acknowledged = D.acknowledged) : NoEditLost E := by
  refine ⟨?_, ?_, ?_, ?_⟩
  · rw [hids, hc]
    exact h.order
  · rw [hc]
    exact h.distinct
  · rw [hids]
    exact h.once
  · rw [hids, hc, ha]
    exact h.kept

/-- **No step loses an edit.** -/
theorem step_noEditLost {D E : Device} {a : DeviceAction} (h : NoEditLost D)
    (hs : DeviceStep D a E) : NoEditLost E := by
  cases hs with
  | sign => exact h.of_ids rfl rfl rfl
  | read => exact h.of_ids rfl rfl rfl
  | flush => exact h.of_ids rfl rfl rfl
  | edit replica terminal envelope updatedAt hnew hm =>
      obtain ⟨current, hn, hu⟩ := mutateWorkspaceReplica_ok.mp hm
      obtain ⟨r, -, rfl⟩ := enqueue_ok hu
      have hids := (normalizeLocalReplica_queued hn).1.ids
      have hqueue : (current.outbox ++ [⟨outboxEntryAccountId (accountRef D.signedIn), envelope,
          none, .pending⟩] : List OutboxEntry).map (·.commandId) =
          D.replica.outbox.map (·.commandId) ++ [envelope.id] := by
        rw [List.map_append, hids]
        rfl
      have hcreated : (D.created ++ [⟨envelope.id, D.signedIn⟩] : List Created).map (·.id) =
          D.created.map (·.id) ++ [envelope.id] := by
        rw [List.map_append]
        rfl
      have hdistinct : (D.created.map (·.id) ++ [envelope.id]).Nodup :=
        List.nodup_append.mpr ⟨h.distinct, List.nodup_singleton _, fun x hx y hy hxy =>
          hnew (by rw [← List.mem_singleton.mp hy, ← hxy]; exact hx)⟩
      have horder := h.order.append (List.Sublist.refl [envelope.id])
      refine ⟨?_, ?_, ?_, ?_⟩
      · rw [hqueue, hcreated]
        exact horder
      · rw [hcreated]
        exact hdistinct
      · rw [hqueue]
        exact horder.nodup hdistinct
      · rw [hqueue]
        intro c hc
        rcases List.mem_append.mp hc with hc | hc
        · exact (h.kept c hc).imp (List.mem_append_left _) fun h => h
        · rw [List.mem_singleton.mp hc]
          exact .inl (List.mem_append_right _ List.mem_cons_self)
  | normalize replica hn => exact h.of_ids (normalizeLocalReplica_queued hn).1.ids rfl rfl
  | success replica batch serverState receipts syncedAt context hb hm =>
      obtain ⟨current, hn, hu⟩ := mutateWorkspaceReplica_ok.mp hm
      obtain ⟨reconciled, hr, hq, -⟩ := applySuccessful_ok hu
      have hids := (normalizeLocalReplica_queued hn).1.ids
      have hqueue : (replica.outbox.map (·.commandId)).Sublist
            (D.replica.outbox.map (·.commandId)) ∧
          ∀ id ∈ D.replica.outbox.map (·.commandId),
            id ∈ replica.outbox.map (·.commandId) ∨ id ∈ savedIds receipts := by
        rw [hq.ids, ← hids]
        rcases reconcileReplica_queue hr with hsame | hsame
        · rw [hsame]
          exact ⟨List.Sublist.refl _, fun _ hid => .inl hid⟩
        · rw [hsame]
          exact remaining_ids current batch.entries receipts
      refine ⟨hqueue.1.trans h.order, h.distinct, hqueue.1.nodup h.once, fun c hc => ?_⟩
      rcases h.kept c hc with hid | hid
      · exact (hqueue.2 c.id hid).imp (fun h => h) (List.mem_append_right _)
      · exact .inr (List.mem_append_left _ hid)
  | refusal replica batch receipts message attemptedAt definitive context hb hm =>
      obtain ⟨current, hn, hu⟩ := mutateWorkspaceReplica_ok.mp hm
      obtain rfl := Except.ok.inj hu
      exact h.of_ids ((applyRefused_queued _ _ _ _ _ _ _).ids.trans
        (normalizeLocalReplica_queued hn).1.ids) rfl rfl
  | access replica authorization unchanged summary hm =>
      obtain ⟨current, hn, hu⟩ := mutateWorkspaceReplica_ok.mp hm
      exact h.of_ids ((writeWorkspaceAuthorization_queued hu).1.ids.trans
        (normalizeLocalReplica_queued hn).1.ids) rfl rfl
  | deletion replica authorization summary hm =>
      obtain ⟨current, hn, hu⟩ := mutateWorkspaceReplica_ok.mp hm
      exact h.of_ids ((applyConfirmedServerDeletion_queued hu).1.ids.trans
        (normalizeLocalReplica_queued hn).1.ids) rfl rfl
  | opening replica prepared summary hm =>
      obtain ⟨current, hn, hu⟩ := mutateWorkspaceReplica_ok.mp hm
      obtain rfl := Except.ok.inj hu
      exact h.of_ids ((openServerWorkspace_queued _ _ _).ids.trans
        (normalizeLocalReplica_queued hn).1.ids) rfl rfl

/-- **No queued edit is lost on the device**, whatever the order of edits, flushes, answers and
    changes of access. -/
theorem device_noEditLost (D : Device) (h : device.Reachable D) : NoEditLost D := by
  refine h.invariant (P := NoEditLost) ?_ fun _ _ _ hD hs => step_noEditLost hD hs
  rintro D ⟨houtbox, -, -, hcreated, -⟩
  refine ⟨?_, ?_, ?_, ?_⟩
  · rw [houtbox]
    exact List.nil_sublist _
  · rw [hcreated]
    exact List.nodup_nil
  · rw [houtbox]
    exact List.nodup_nil
  · rw [hcreated]
    exact fun _ hc => absurd hc List.not_mem_nil

end Machine

/-! ## 4. A run -/

/-- The empty workspace on a device that no server knows of. -/
def firstReplica : LocalReplica where
  authorization := none
  lastSyncAttemptAt := none
  lastSyncError := none
  lastSyncedAt := none
  outbox := []
  serverSummary := none
  state := firstState
  updatedAt := "2024-01-01T00:00:00.000Z"

/-- A device before anything happened. -/
def firstDevice (signedIn : Option Account) : Device where
  replica := firstReplica
  signedIn
  reads := []
  sent := []
  created := []
  acknowledged := []

/-- One account. -/
def firstAccount : Account := ⟨"usr_a", by decide +kernel, by decide⟩

/-- Another account. -/
def secondAccount : Account := ⟨"usr_b", by decide +kernel, by decide⟩

/-- The replica after one edit of the account, and what a flush for another reads and sends. -/
def editThenFlush [Host] (editor sender : Account) :
    Result (LocalReplica × LocalReplica × Option (List OutboxEntry)) := do
  let replica ← mutateWorkspaceReplica firstReplica (enqueue · editor.ref none
    (firstEnvelope "c1" (.workspaceRename "Flat")) "2024-01-02T00:00:00.000Z")
  let value ← normalizeLocalReplica replica
  return (replica, value, flushBatch value sender.id false)

/-- The device after the first account edited, the second signed in and a flush was sent. -/
def flushedDevice (replica value : LocalReplica) (sender : Account) (batch : List OutboxEntry) :
    Device where
  replica
  signedIn := some sender
  reads := [value]
  sent := [⟨sender, batch⟩]
  created := [⟨"c1", some firstAccount⟩]
  acknowledged := []

/-- Its run takes only steps that meet a condition which all but the flush meet anyway. -/
theorem flushedDevice_reachable [Host] [Collation] {ok : Device → DeviceAction → Prop}
    {replica value : LocalReplica} {sender : Account} {batch : List OutboxEntry}
    (h : editThenFlush firstAccount sender = .ok (replica, value, some batch))
    (hok : ∀ D a, (∀ v b, a ≠ .flush v b) → ok D a) (hflush : ∀ D, ok D (.flush value sender)) :
    (device.restrict ok).Reachable (flushedDevice replica value sender batch) := by
  obtain ⟨r, hr, h⟩ := except_bind_ok.mp h
  obtain ⟨v, hv, h⟩ := except_bind_ok.mp h
  have h := Except.ok.inj h
  obtain ⟨rfl, rfl, hbatch⟩ : r = replica ∧ v = value ∧ _ :=
    ⟨congrArg (·.1) h, congrArg (·.2.1) h, congrArg (·.2.2) h⟩
  have hfree : ∀ D a, (∀ v b, a ≠ DeviceAction.flush v b) → ok D a := hok
  have h₀ : (device.restrict ok).Reachable (firstDevice (some firstAccount)) :=
    ⟨_, [], ⟨rfl, rfl, rfl, rfl, rfl⟩, .nil _⟩
  have h₁ := h₀.step ⟨hfree _ _ (by simp), .edit _ r none
    (firstEnvelope "c1" (.workspaceRename "Flat")) "2024-01-02T00:00:00.000Z"
    List.not_mem_nil hr⟩
  have h₂ := h₁.step ⟨hfree _ _ (by simp), .sign _ (some sender)⟩
  have h₃ := h₂.step ⟨hfree _ _ (by simp), .read _ v hv⟩
  exact h₃.step ⟨hflush _, .flush _ v sender false batch List.mem_cons_self rfl hbatch⟩

/-- After the edit of one account was sent for another, none is lost. -/
theorem device_noEditLost_sent : ∃ D, D.sent ≠ [] ∧ NoEditLost D := by
  let : Host := asciiHost
  let : Collation := plainCollation
  have hrun : (editThenFlush firstAccount secondAccount).toOption.any
      (fun p => p.2.2.isSome) = true := by
    decide +kernel
  cases h : editThenFlush firstAccount secondAccount with
  | error e => rw [h] at hrun; cases hrun
  | ok p =>
      obtain ⟨replica, value, batch⟩ := p
      rw [h] at hrun
      obtain ⟨batch, rfl⟩ := Option.isSome_iff_exists.mp hrun
      have hreach := flushedDevice_reachable h (fun _ _ _ => trivial)
        fun _ => trivial
      exact ⟨_, List.cons_ne_nil _ _, device_noEditLost _ hreach.of_restrict⟩

end Stowplan
