/-
  File:      Stowplan/Client/Refused.lean
  Subject:   A REFUSAL AND ITS RECEIPTS (route.ts, sync-service.ts, sync-reconciliation.ts).

  A sync request is refused when the account, the membership or the workspace is gone: before the
  batch is looked at, when the result is swapped in, or after that. The later the refusal, the more
  its receipts tell: a command the snapshot records is a duplicate, and after the swap an accepted
  one is applied. The device keeps every entry of a refused batch, whatever its receipt says.

  * `refusal_duplicate`, `receipts_saved`: which commands a refusal calls saved;
  * `refusal_honoured`: so when the device honours the receipts of a refusal.
-/
import Stowplan.Client.Device
import Stowplan.Server.Authority

namespace Stowplan

/-! ## 1. Requests and refusals -/

/-- When the account, the membership or the workspace goes, relative to a request. -/
inductive AccessLost where
  | beforeRequest | beforeCheck | beforeSwap | beforeResponse

/-- The commands the route makes of the sent entries. -/
def routeCommands (userId : String) (basis : CommandAuthorizationBasis)
    (sent : List OutboxEntry) : List CommandEnvelope :=
  sent.map fun entry => { entry.envelope with actorId := userId, authorization := some basis }

section Refusals

variable [Host] {initial : WorkspaceState} {commands : List CommandEnvelope}

/-- The receipts of a refusal of the batch, where `initial` is what its last attempt loaded. -/
inductive RefusedWith (initial : WorkspaceState) (commands : List CommandEnvelope) :
    AccessLost → List SyncReceipt → Prop where
  /-- the route finds no workspace of the user -/
  | beforeRequest : RefusedWith initial commands .beforeRequest []
  /-- `authorizedSnapshot` -/
  | beforeCheck (revision : Int) (message : String) :
      RefusedWith initial commands .beforeCheck
        (authorizationReceipts commands revision message [])
  /-- the swap finds the access gone, after the loop of the batch -/
  | beforeSwap {b : Batch} (hb : syncBatch initial commands = .ok b) (revision : Int)
      (message : String) : RefusedWith initial commands .beforeSwap
        (authorizationReceipts commands revision message b.receipts)
  /-- the route finds the access gone when `synchronize` has returned -/
  | beforeResponse {b : Batch} (hb : syncBatch initial commands = .ok b) :
      RefusedWith initial commands .beforeResponse b.receipts

/-- Where the identifier comes for the last time in the batch, the snapshot of the loop records
    it. -/
def RecordedAtLast (initial : WorkspaceState) (commands : List CommandEnvelope) (id : String) :
    Prop :=
  ∃ xs c ys b, commands = xs ++ c :: ys ∧ receiptId c xs.length = id ∧
    (∀ d k, (d, k) ∈ ys.zipIdx (xs.length + 1) → receiptId d k ≠ id) ∧
    syncBatch initial xs = .ok b ∧ wasApplied b.state id = true

/-- Somewhere in the batch the snapshot of the loop records the identifier, or the loop accepts
    the command that carries it. -/
def SavedInBatch (initial : WorkspaceState) (commands : List CommandEnvelope) (id : String) :
    Prop :=
  ∃ xs c ys b, commands = xs ++ c :: ys ∧ receiptId c xs.length = id ∧
    syncBatch initial xs = .ok b ∧ (wasApplied b.state id = true ∨ Accepts initial b c)

/-- The command is on the server when the access goes. -/
def SavedBy (initial : WorkspaceState) (commands : List CommandEnvelope) (id : String) :
    AccessLost → Prop
  | .beforeRequest | .beforeCheck => False
  | .beforeSwap => RecordedAtLast initial commands id
  | .beforeResponse => SavedInBatch initial commands id

/-! ## 2. What the receipts tell -/

variable {b : Batch} {id : String}

/-- The loop over a batch stops at each of its commands. -/
theorem syncBatch_at {xs ys : List CommandEnvelope} {c : CommandEnvelope}
    (h : syncBatch initial (xs ++ c :: ys) = .ok b) :
    ∃ b₁ b₂, syncBatch initial xs = .ok b₁ ∧ syncCommand initial b₁ c = .ok b₂ ∧
      b₂.receipts <+: b.receipts := by
  induction ys using List.reverseRecOn generalizing b with
  | nil =>
      obtain ⟨b₁, hb₁, hc⟩ := syncBatch_concat h
      exact ⟨b₁, b, hb₁, hc, List.prefix_rfl⟩
  | append_singleton ys d ih =>
      rw [← List.cons_append, ← List.append_assoc] at h
      obtain ⟨b₃, hb₃, hd⟩ := syncBatch_concat h
      obtain ⟨b₁, b₂, hb₁, hc, hprefix⟩ := ih hb₃
      obtain ⟨last, hlast, -⟩ := syncCommand_receipt hd
      exact ⟨b₁, b₂, hb₁, hc, hprefix.trans ⟨[last], hlast.symm⟩⟩

/-- The receipt of one turn: it calls the command saved where the snapshot records it, and where
    the loop accepts it. -/
theorem syncCommand_saved {b' : Batch} {c : CommandEnvelope}
    (h : syncCommand initial b c = .ok b') :
    ∃ receipt, b'.receipts = b.receipts ++ [receipt] ∧
      receipt.commandId = receiptId c b.receipts.length ∧
      (receipt.saved = true ↔
        wasApplied b.state receipt.commandId = true ∨ Accepts initial b c) := by
  unfold syncCommand at h
  simp only at h
  split at h
  · rename_i hdup
    cases h
    exact ⟨_, rfl, rfl, fun _ => .inl hdup, fun _ => rfl⟩
  · rename_i hnew
    split at h
    · rename_i state usage happly
      cases h
      exact ⟨_, rfl, rfl, fun _ => .inr ⟨Bool.eq_false_iff.mpr hnew, (state, usage), happly⟩,
        fun _ => rfl⟩
    · rename_i e happly
      simp only [result_bind_ok, result_pure_ok] at h
      obtain ⟨receipt, hreceipt, rfl⟩ := h
      obtain ⟨hstatus, hid⟩ := rejection_ok hreceipt
      refine ⟨receipt, rfl, hid, fun hs => ?_, fun hs => ?_⟩
      · simp [SyncReceipt.saved, hstatus] at hs
      · rcases hs with hs | ⟨-, p, hp⟩
        · rw [hid] at hs
          exact absurd hs hnew
        · cases happly.symm.trans hp

/-- The receipts of a batch call a command saved that is recorded or accepted somewhere in it. -/
theorem receipts_saved (h : syncBatch initial commands = .ok b) :
    (∃ r ∈ b.receipts, r.commandId = id ∧ r.saved = true) ↔ SavedInBatch initial commands id := by
  constructor
  · rintro ⟨r, hr, hid, hs⟩
    induction commands using List.reverseRecOn generalizing b with
    | nil =>
        cases h
        exact absurd hr List.not_mem_nil
    | append_singleton cs d ih =>
        obtain ⟨b₁, hb₁, hd⟩ := syncBatch_concat h
        obtain ⟨last, hlast, hname, hsaved⟩ := syncCommand_saved hd
        rw [hlast] at hr
        rcases List.mem_append.mp hr with hr | hr
        · obtain ⟨xs, c, ys, b₂, rfl, hrest⟩ := ih hb₁ hr
          exact ⟨xs, c, ys ++ [d], b₂, by simp, hrest⟩
        · obtain rfl := List.mem_singleton.mp hr
          rw [syncBatch_length hb₁] at hname
          exact ⟨cs, d, [], b₁, rfl, hname.symm.trans hid, hb₁, hid ▸ hsaved.mp hs⟩
  · rintro ⟨xs, c, ys, b₁, rfl, hid, hb₁, hs⟩
    obtain ⟨b₁', b₂, hb₁', hc, hprefix⟩ := syncBatch_at h
    obtain rfl : b₁ = b₁' := Except.ok.inj (hb₁.symm.trans hb₁')
    obtain ⟨receipt, hlast, hname, hsaved⟩ := syncCommand_saved hc
    rw [syncBatch_length hb₁, hid] at hname
    exact ⟨receipt, hprefix.subset (by simp [hlast]), hname, hsaved.mpr (hname ▸ hs)⟩

/-- The last receipt for an identifier is that of its last command. -/
theorem receiptFor_at {xs ys : List CommandEnvelope} {c : CommandEnvelope}
    (h : syncBatch initial (xs ++ c :: ys) = .ok b) (hid : receiptId c xs.length = id)
    (hlater : ∀ d k, (d, k) ∈ ys.zipIdx (xs.length + 1) → receiptId d k ≠ id) :
    ∃ b₁ r, syncBatch initial xs = .ok b₁ ∧ receiptFor b.receipts id = some r ∧
      r.commandId = id ∧ (r.status = .duplicate ↔ wasApplied b₁.state id = true) := by
  induction ys using List.reverseRecOn generalizing b with
  | nil =>
      obtain ⟨b₁, hb₁, hc⟩ := syncBatch_concat h
      obtain ⟨last, hlast, hname, hstatus⟩ := syncCommand_receipt hc
      rw [syncBatch_length hb₁, hid] at hname
      refine ⟨b₁, last, hb₁, ?_, hname, hname ▸ hstatus⟩
      rw [hlast, receiptFor_append, if_pos hname]
  | append_singleton ys d ih =>
      rw [← List.cons_append, ← List.append_assoc] at h
      obtain ⟨b₃, hb₃, hd⟩ := syncBatch_concat h
      obtain ⟨last, hlast, hname, -⟩ := syncCommand_receipt hd
      have hplace : (xs ++ c :: ys).length = xs.length + 1 + ys.length := by
        simp only [List.length_append, List.length_cons]
        omega
      rw [syncBatch_length hb₃, hplace] at hname
      have hne : last.commandId ≠ id := by
        rw [hname]
        refine hlater d _ ?_
        rw [List.zipIdx_append]
        exact List.mem_append_right _ (by simp)
      obtain ⟨b₁, r, hb₁, hr, hrest⟩ := ih hb₃ fun e k hek => hlater e k (by
        rw [List.zipIdx_append]
        exact List.mem_append_left _ hek)
      refine ⟨b₁, r, hb₁, ?_, hrest⟩
      rw [hlast, receiptFor_append, if_neg hne]
      exact hr

omit [Host] in
/-- An identifier that comes in a batch comes in it for the last time. -/
theorem exists_last {c : CommandEnvelope} {k : Nat} (h : (c, k) ∈ commands.zipIdx)
    (hid : receiptId c k = id) :
    ∃ xs d ys, commands = xs ++ d :: ys ∧ receiptId d xs.length = id ∧
      ∀ e j, (e, j) ∈ ys.zipIdx (xs.length + 1) → receiptId e j ≠ id := by
  induction commands using List.reverseRecOn with
  | nil => exact absurd h List.not_mem_nil
  | append_singleton cs d ih =>
      by_cases hd : receiptId d cs.length = id
      · exact ⟨cs, d, [], rfl, hd, fun e j hej => absurd hej List.not_mem_nil⟩
      · rw [List.zipIdx_append] at h
        rcases List.mem_append.mp h with h | h
        · obtain ⟨xs, e, ys, rfl, he, hlater⟩ := ih h
          refine ⟨xs, e, ys ++ [d], by simp, he, fun e' j hej => ?_⟩
          rw [List.zipIdx_append] at hej
          rcases List.mem_append.mp hej with hej | hej
          · exact hlater e' j hej
          · simp only [List.zipIdx_singleton, List.mem_singleton, Prod.mk.injEq] at hej
            obtain ⟨rfl, rfl⟩ := hej
            have hplace : (xs ++ e :: ys).length = xs.length + 1 + ys.length := by
              simp only [List.length_append, List.length_cons]
              omega
            rwa [hplace] at hd
        · simp only [List.zipIdx_singleton, List.mem_singleton, Prod.mk.injEq] at h
          obtain ⟨rfl, rfl⟩ := h
          rw [Nat.zero_add] at hid
          exact absurd hid hd

/-- A refusal at the swap calls a command a duplicate that the snapshot of the loop records where
    it comes for the last time. -/
theorem refusal_duplicate (h : syncBatch initial commands = .ok b) {revision : Int}
    {message : String} :
    (∃ r ∈ authorizationReceipts commands revision message b.receipts,
      r.commandId = id ∧ r.saved = true) ↔ RecordedAtLast initial commands id := by
  constructor
  · rintro ⟨r, hr, hid, hs⟩
    have hdup : r.status = .duplicate := by
      have hne := authorizationReceipts_unapplied r hr
      simpa [SyncReceipt.saved, hne] using hs
    obtain ⟨-, c, k, hck, hfor⟩ := authorizationReceipts_duplicate.mp ⟨hr, hdup⟩
    have hname : receiptId c k = id := by
      have := List.find?_some hfor
      simp only [decide_eq_true_eq] at this
      exact this.symm.trans hid
    obtain ⟨xs, d, ys, rfl, hd, hlater⟩ := exists_last hck hname
    obtain ⟨b₁, r', hb₁, hr', -, hstatus⟩ := receiptFor_at h hd hlater
    rw [hname, hr', Option.some.injEq] at hfor
    exact ⟨xs, d, ys, b₁, rfl, hd, hlater, hb₁, hstatus.mp (hfor ▸ hdup)⟩
  · rintro ⟨xs, c, ys, b₁, rfl, hid, hlater, hb₁, hs⟩
    obtain ⟨b₁', r, hb₁', hr, hname, hstatus⟩ := receiptFor_at h hid hlater
    obtain rfl : b₁ = b₁' := Except.ok.inj (hb₁.symm.trans hb₁')
    have hdup := hstatus.mpr hs
    refine ⟨r, (authorizationReceipts_duplicate.mpr ⟨hdup, c, xs.length, ?_, hid ▸ hr⟩).1, hname,
      by simp [SyncReceipt.saved, hdup]⟩
    rw [List.zipIdx_append]
    exact List.mem_append_right _ (by simp)

/-- **What a refusal tells**: it calls saved what is on the server when the access goes. -/
theorem refusal_saved {lost : AccessLost} {receipts : List SyncReceipt}
    (h : RefusedWith initial commands lost receipts) :
    (∃ r ∈ receipts, r.commandId = id ∧ r.saved = true) ↔ SavedBy initial commands id lost := by
  cases h with
  | beforeRequest => simp [SavedBy]
  | beforeCheck revision message =>
      refine ⟨fun hsaved => ?_, False.elim⟩
      obtain ⟨r, hr, -, hs⟩ := hsaved
      simp [SyncReceipt.saved, authorizationReceipts_rejected r hr] at hs
  | beforeSwap hb revision message => exact refusal_duplicate hb
  | beforeResponse hb => exact receipts_saved hb

end Refusals

/-! ## 3. What the device makes of it -/

section Device

variable [Host] [Collation]

/-- The device takes the commands that the receipts call applied or duplicate out of its queue, and
    keeps those they call rejected. -/
structure HonoursReceipts (sent : List OutboxEntry) (receipts : List SyncReceipt)
    (replica next : LocalReplica) : Prop where
  saved : ∀ e ∈ sent, ∀ r ∈ receipts, r.commandId = e.commandId → r.saved = true →
    e.commandId ∉ next.outbox.map (·.commandId)
  rejected : ∀ e ∈ sent, ∀ r ∈ receipts, r.commandId = e.commandId → r.status = .rejected →
    e.commandId ∈ replica.outbox.map (·.commandId) → e.commandId ∈ next.outbox.map (·.commandId)

/-- **A refusal is honoured exactly when nothing of its batch that still waits was saved.** Let
    the access go at any point of the request of any batch, and the device process the refusal,
    whatever else it learned in between. It honours the receipts if and only if no entry of the
    batch that is still in the queue has its command on the server at that point: recorded by the
    snapshot of the batch's loop where it comes for the last time, or, once the swap is done,
    recorded or accepted anywhere in the batch. -/
theorem refusal_honoured (userId : String) (basis : CommandAuthorizationBasis)
    (initial : WorkspaceState) (sent : List OutboxEntry) (lost : AccessLost)
    (receipts : List SyncReceipt)
    (h : RefusedWith initial (routeCommands userId basis sent) lost receipts)
    (replica : LocalReplica) (message attemptedAt : String) (definitive : Bool)
    (context : SyncServerContext) :
    HonoursReceipts sent receipts replica
        (applyRefusedSyncResponse replica sent receipts message attemptedAt definitive context) ↔
      ∀ e ∈ sent, e.commandId ∈ replica.outbox.map (·.commandId) →
        ¬ SavedBy initial (routeCommands userId basis sent) e.commandId lost := by
  have hids := (applyRefused_queued replica sent receipts message attemptedAt definitive
    context).ids
  constructor
  · intro hhonours e he hqueued hsaved
    obtain ⟨r, hr, hid, hs⟩ := (refusal_saved h).mpr hsaved
    have hgone := hhonours.saved e he r hr hid hs
    rw [hids] at hgone
    exact hgone hqueued
  · intro hnone
    refine ⟨fun e he r hr hid hs hqueued => ?_, fun e _ r _ _ _ hqueued => hids ▸ hqueued⟩
    rw [hids] at hqueued
    exact hnone e he hqueued ((refusal_saved h).mp ⟨r, hr, hid, hs⟩)

end Device

/-! ## 4. A command sent again -/

/-- A queued edit. -/
def waitingEntry : OutboxEntry where
  accountId := .id "ann"
  envelope := firstEnvelope "c1" (.workspaceRename "Flat")
  status := .pending

/-- A device whose edit is on the server, with its response lost. -/
def waitingReplica : LocalReplica := { firstReplica with outbox := [waitingEntry] }

/-- What the server has: the edit is recorded. -/
def savedState : WorkspaceState := { firstState with commandReceipts := ["c1"] }

/-- The device after the edit was sent again and the membership removed at some point. -/
def refusedReplica (receipts : List SyncReceipt) : LocalReplica :=
  @applyRefusedSyncResponse plainCollation waitingReplica [waitingEntry] receipts
    "Workspace access was removed" "2024-01-03T00:00:00.000Z" true ⟨none, none⟩

theorem sentAgain_recorded : @SavedInBatch asciiHost savedState
    (routeCommands "ann" ⟨0, 0⟩ [waitingEntry]) "c1" := by
  let : Host := asciiHost
  exact ⟨[], _, [], startBatch savedState, rfl, by decide +kernel, rfl, .inl (by decide +kernel)⟩

/-- The same edit is honoured where it is refused before the batch is checked, and is not where
    the membership goes before the response. -/
theorem refusal_honoured_sentAgain :
    (∀ revision message, HonoursReceipts [waitingEntry]
      (authorizationReceipts (routeCommands "ann" ⟨0, 0⟩ [waitingEntry]) revision message [])
      waitingReplica (refusedReplica (authorizationReceipts
        (routeCommands "ann" ⟨0, 0⟩ [waitingEntry]) revision message []))) ∧
    ∃ b, @syncBatch asciiHost savedState (routeCommands "ann" ⟨0, 0⟩ [waitingEntry]) = .ok b ∧
      ¬ HonoursReceipts [waitingEntry] b.receipts waitingReplica (refusedReplica b.receipts) := by
  let : Host := asciiHost
  let : Collation := plainCollation
  refine ⟨fun revision message => ?_, ?_⟩
  · exact (refusal_honoured "ann" ⟨0, 0⟩ savedState [waitingEntry] .beforeCheck _
      (.beforeCheck revision message) waitingReplica _ _ true ⟨none, none⟩).mpr
      fun _ _ _ h => h
  · have hok : (syncBatch savedState (routeCommands "ann" ⟨0, 0⟩ [waitingEntry])).isOk = true := by
      decide +kernel
    obtain ⟨b, hb⟩ := exists_of_isOk hok
    refine ⟨b, hb, fun hhonours => ?_⟩
    exact (refusal_honoured "ann" ⟨0, 0⟩ savedState [waitingEntry] .beforeResponse _
      (.beforeResponse hb) waitingReplica _ _ true ⟨none, none⟩).mp hhonours waitingEntry
      List.mem_cons_self (by decide +kernel) sentAgain_recorded

/-- **A saved command stays blocked**: the refusal calls it a duplicate, and it waits for review as
    if it had not been saved. -/
theorem refusal_keepsSaved :
    ∃ b, @syncBatch asciiHost savedState (routeCommands "ann" ⟨0, 0⟩ [waitingEntry]) = .ok b ∧
      (b.receipts.map fun r => (r.commandId, r.status)) = [("c1", .duplicate)] ∧
      ((refusedReplica b.receipts).outbox.map fun e => (e.commandId, e.status)) =
        [("c1", .blocked)] := by
  let : Host := asciiHost
  have hrun : (syncBatch savedState (routeCommands "ann" ⟨0, 0⟩ [waitingEntry])).toOption.any
      (fun b => decide ((b.receipts.map fun r => (r.commandId, r.status)) = [("c1", .duplicate)]) &&
        decide (((refusedReplica b.receipts).outbox.map fun e => (e.commandId, e.status)) =
          [("c1", .blocked)])) = true := by
    decide +kernel
  obtain ⟨b, hb, hfacts⟩ := (Option.any_eq_true _ _).mp hrun
  simp only [Bool.and_eq_true, decide_eq_true_eq] at hfacts
  exact ⟨b, toOption_eq_some.mp hb, hfacts⟩

end Stowplan
