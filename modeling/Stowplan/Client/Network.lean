/-
  File:      Stowplan/Client/Network.lean
  Subject:   A DEVICE, THE SERVER AND WHAT IS ON THE WAY BETWEEN THEM.

  The device machine and the server machine side by side. A flush of the device is a call of the
  server; an answer of the server, with the snapshot the route loads after it, is a response.
  Responses reach the device late, more than once or never; other devices call the server too.

  * `network`: the machine; `network_server`: its server part is a run of `server`;
  * `recorded`: the commands the server has applied so far, or recorded at first;
  * `saved_recorded`: a receipt that calls a command saved is about a recorded one.
-/
import Stowplan.Client.Device
import Stowplan.Server.ExactlyOnce

namespace Stowplan

/-! ## 1. The machine -/

/-- A command of a batch as the route passes it on: under the account and the basis of the
    request. -/
def routed (userId : String) (basis : CommandAuthorizationBasis) (envelope : CommandEnvelope) :
    CommandEnvelope :=
  { envelope with
    actorId := userId
    authorization := some basis }

/-- The body of a response: the receipts of a batch, and the snapshot that was loaded after it,
    when `seen` commands had taken effect. -/
structure Response where
  commands : List CommandEnvelope
  receipts : List SyncReceipt
  state : WorkspaceState
  seen : Nat

/-- A device and a server, with the responses that are on their way. -/
structure Network where
  device : Device
  server : Server
  responses : List Response

/-- Who takes a step. -/
inductive NetworkAction where
  | other
  | server
  | respond
  | device
  | edit
  | flush (value : LocalReplica) (batch : List OutboxEntry)
  | success (batch : List OutboxEntry) (response : Response)

/-- What a device does without the server: accounts come and go, the replica is read and
    normalised, access changes, a request is refused. -/
def DeviceAction.isLocal : DeviceAction → Bool
  | .sign | .normalize | .read | .refusal | .access | .deletion | .opening => true
  | .edit | .flush _ _ | .success => false

/-- No command that the server knows or was sent has the identifier. -/
structure Unused (s₀ : WorkspaceState) (S : Server) (id : String) : Prop where
  first : wasApplied s₀ id = false
  history : ∀ t ∈ S.history, t.envelope.id ≠ id
  calls : ∀ c ∈ S.calls, ∀ envelope ∈ c.commands, envelope.id ≠ id
  answers : ∀ a ∈ S.answers, ∀ envelope ∈ a.commands, envelope.id ≠ id

/-- The identifiers of the commands queued on the device so far. -/
def Device.ids (D : Device) : List String := D.created.map (·.id)

section Machine

variable [Host] [Collation]

/-- One step: of the server, of the device, or a response that is sent. -/
inductive NetworkStep (workspaceId : String) (s₀ : WorkspaceState) :
    Network → NetworkAction → Network → Prop where
  /-- Another device sends a batch. -/
  | other (N : Network) (call : Call)
      (hw : ∀ envelope ∈ call.commands, envelope.workspaceId = workspaceId)
      (hl : call.loaded = none) (hids : ∀ envelope ∈ call.commands, envelope.id ∉ N.device.ids) :
      NetworkStep workspaceId s₀ N .other { N with
        server := { N.server with calls := N.server.calls ++ [call] } }
  | server (N : Network) (a : ServerAction) (S : Server) (ha : a ≠ .receive)
      (h : ServerStep workspaceId N.server a S) :
      NetworkStep workspaceId s₀ N .server { N with server := S }
  /-- The route loads the snapshot again and responds. -/
  | respond (N : Network) (answer : Answer) (state : WorkspaceState)
      (ha : answer ∈ N.server.answers) (h : N.server.db.load = .ok (some state)) :
      NetworkStep workspaceId s₀ N .respond { N with
        responses := N.responses ++
          [⟨answer.commands, answer.receipts, state, N.server.history.length⟩] }
  | device (N : Network) (a : DeviceAction) (D : Device) (ha : a.isLocal = true)
      (h : DeviceStep N.device a D) :
      NetworkStep workspaceId s₀ N .device { N with device := D }
  /-- An edit; nobody has used the identifier of its command before. -/
  | edit (N : Network) (D : Device) (h : DeviceStep N.device .edit D)
      (hnew : ∀ id ∈ D.ids, id ∉ N.device.ids → Unused s₀ N.server id) :
      NetworkStep workspaceId s₀ N .edit { N with device := D }
  | flush (N : Network) (D : Device) (value : LocalReplica) (account : Account)
      (batch : List OutboxEntry) (basis : CommandAuthorizationBasis) (attempts : Nat)
      (h : DeviceStep N.device (.flush value account) D)
      (hb : D.sent = N.device.sent ++ [⟨account, batch⟩])
      (hw : ∀ e ∈ batch, e.envelope.workspaceId = workspaceId) :
      NetworkStep workspaceId s₀ N (.flush value batch) { N with
        device := D
        server := { N.server with
          calls := N.server.calls ++ [{
            commands := batch.map fun e => routed account.id basis e.envelope
            authorization := some ⟨basis, account.id⟩
            attempts
            loaded := none }] } }
  /-- A response to a batch reaches the device. -/
  | success (N : Network) (replica : LocalReplica) (batch : SentBatch) (response : Response)
      (syncedAt : String) (context : SyncServerContext) (hb : batch ∈ N.device.sent)
      (hr : response ∈ N.responses)
      (hc : response.commands.map (·.id) = batch.entries.map (·.commandId))
      (h : mutateWorkspaceReplica N.device.replica (applySuccessfulSyncResponse · batch.entries
        response.state response.receipts syncedAt context) = .ok replica) :
      NetworkStep workspaceId s₀ N (.success batch.entries response) { N with
        device := { N.device with
          replica
          acknowledged := N.device.acknowledged ++ savedIds response.receipts } }

/-- A device that has queued nothing yet and whose replica is not ahead of the server, and a
    server whose stored snapshot is `s₀`. -/
def network (workspaceId : String) (s₀ : WorkspaceState) : Machine Network NetworkAction where
  init N := device.init N.device ∧ (server workspaceId s₀).init N.server ∧ N.responses = [] ∧
    N.device.replica.state.workspace.revision ≤ s₀.workspace.revision
  step := NetworkStep workspaceId s₀

/-! ## 2. The parts of a run -/

variable {workspaceId : String} {s₀ : WorkspaceState} {N M : Network} {a : NetworkAction}

omit [Collation] in
/-- The history of the server only grows. -/
theorem serverStep_history {S T : Server} {b : ServerAction}
    (h : ServerStep workspaceId S b T) : ∃ ts, T.history = S.history ++ ts := by
  cases h with
  | swap => exact ⟨_, rfl⟩
  | swapUnanswered => exact ⟨_, rfl⟩
  | _ => exact ⟨[], (List.append_nil _).symm⟩

end Machine

/-! ## 3. What the server has recorded -/

section Recorded

variable [Host] {s₀ : WorkspaceState} {S : Server}

/-- The command was recorded in the first snapshot, or has taken effect since. -/
def recorded (s₀ : WorkspaceState) (history : List Turn) (id : String) : Bool :=
  wasApplied s₀ id || history.any fun t => decide (t.envelope.id = id)

omit [Host] in
theorem recorded_iff {history : List Turn} {id : String} :
    recorded s₀ history id = true ↔
      wasApplied s₀ id = true ∨ ∃ t ∈ history, t.envelope.id = id := by
  simp [recorded]

omit [Host] in
theorem recorded_append (history ts : List Turn) (id : String) :
    recorded s₀ (history ++ ts) id =
      (recorded s₀ history id || ts.any fun t => decide (t.envelope.id = id)) := by
  simp only [recorded, List.any_append, Bool.or_assoc]

omit [Host] in
theorem Unused.unrecorded {id : String} (h : Unused s₀ S id) :
    recorded s₀ S.history id = false := by
  refine Bool.eq_false_iff.mpr fun hr => ?_
  rcases recorded_iff.mp hr with hr | ⟨t, ht, hid⟩
  · exact absurd (h.first.symm.trans hr) (by decide)
  · exact h.history t ht hid

/-- What the end of a chain records, its start or one of its commands recorded. -/
theorem recorded_of_chain {P : Turn → Prop} {s : WorkspaceState} {ts : List Turn}
    (hc : Chained s ts) (ht : ∀ t ∈ ts, P t ∧ TookEffect t ∨ t.after = t.before) {id : String}
    (h : wasApplied (endOf s ts) id = true) :
    wasApplied s id = true ∨ ∃ t ∈ ts, P t ∧ t.envelope.id = id := by
  induction ts generalizing s with
  | nil => exact .inl h
  | cons t ts ih =>
      rcases ih hc.2 (fun u hu => ht u (List.mem_cons_of_mem _ hu)) h with h | ⟨u, hu, h⟩
      · have hbefore : wasApplied t.before id = true ∨ P t ∧ t.envelope.id = id := by
          rcases ht t List.mem_cons_self with ⟨hP, he⟩ | hkept
          · exact (he.wasApplied h).imp_right fun hid => ⟨hP, hid⟩
          · rw [hkept] at h
            exact .inl h
        rcases hbefore with h | h
        · rw [hc.1.wasApplied] at h
          exact .inl h
        · exact .inr ⟨t, List.mem_cons_self, h⟩
      · exact .inr ⟨u, List.mem_cons_of_mem _ hu, h⟩

/-- **A receipt that calls a command saved is about a recorded one.** -/
theorem ServerInv.saved_recorded (h : ServerInv s₀ S) {a : Answer} (ha : a ∈ S.answers)
    {r : SyncReceipt} (hr : r ∈ a.receipts) (hs : r.saved = true) :
    recorded s₀ S.history r.commandId = true := by
  have hanswer := h.answers a ha
  rw [hanswer.receipts] at hr
  obtain ⟨t, ht, rfl⟩ := List.mem_map.mp hr
  have hfaithful := hanswer.faithful t ht
  by_cases happlied : t.receipt.status = .applied
  · rw [(hfaithful.applied happlied).1]
    exact recorded_iff.mpr (.inr ⟨t, h.applied ha ht happlied, rfl⟩)
  · -- a duplicate: the path up to its turn recorded the command
    have hdup : t.receipt.status = .duplicate := by
      unfold SyncReceipt.saved at hs
      simpa [happlied] using hs
    have hbefore := hfaithful.duplicate.mp hdup
    obtain ⟨xs, ys, hsplit⟩ := List.append_of_mem (show t ∈ a.path S.history from
      List.mem_append_right _ ht)
    obtain ⟨hchain, hturns⟩ := h.path ha
    rw [hsplit] at hchain
    have hstart : Starts (endOf s₀ xs) t := (chained_append.mp hchain).2.1
    rw [hstart.wasApplied] at hbefore
    refine recorded_iff.mpr (recorded_of_chain (P := (· ∈ S.history))
      (chained_append.mp hchain).1 (fun u hu => ?_) hbefore |>.imp_right ?_)
    · have hin : u ∈ a.path S.history := by
        rw [hsplit]
        exact List.mem_append_left _ hu
      rcases List.mem_append.mp hin with hu' | hu'
      · exact .inl ⟨List.mem_of_mem_take hu', h.effect u (List.mem_of_mem_take hu')⟩
      · by_cases hua : u.receipt.status = .applied
        · exact .inl ⟨h.applied ha hu' hua, ((hanswer.faithful u hu').applied hua).2⟩
        · exact .inr ((hanswer.faithful u hu').kept hua)
    · rintro ⟨u, -, hu, hid⟩
      exact ⟨u, hu, hid⟩

end Recorded

end Stowplan
