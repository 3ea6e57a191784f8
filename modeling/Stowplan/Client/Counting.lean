/-
  File:      Stowplan/Client/Counting.lean
  Subject:   HOW A DEVICE AND THE SERVER COUNT REVISIONS.

  The device counts every command it has applied; the server counts those it has accepted. A
  command of the queue is based on no more than what the server has, and the entries before it
  that the server has not recorded. The server counts the same way along a batch, as long as no
  entry is sent past a blocked one and no snapshot that already holds an entry is counted twice.

  * `Counted`: the relation of a queue to the revision of the server; one lemma for each way the
    queue or the server moves on;
  * `syncLoop_notAhead`: a batch so based is never answered `REVISION_AHEAD`;
  * `CountInv`, `network_neverAhead`: the run.
-/
import Stowplan.Client.Network
import Stowplan.Client.Rebase
import Stowplan.Domain.Refusals

namespace Stowplan

/-! ## 1. Counting a queue -/

section Counted

variable {known : String → Bool} {top n : Int} {es : List OutboxEntry}

/-- Each entry is based on at most `n` and the entries before it that are not known; the whole
    queue reaches `top` the same way. -/
def Counted (known : String → Bool) (top : Int) : Int → List OutboxEntry → Prop
  | n, [] => top ≤ n
  | n, e :: rest => e.envelope.baseRevision ≤ n ∧
      Counted known top (if known e.commandId then n else n + 1) rest

/-- What is known after one more command. -/
def learn (known : String → Bool) (id : String) (x : String) : Bool := known x || decide (id = x)

/-- The entries that are not known. -/
def unknownCount (known : String → Bool) (es : List OutboxEntry) : Nat :=
  es.countP fun e => !known e.commandId

theorem Counted.mono {m : Int} (h : Counted known top n es) (hm : n ≤ m) :
    Counted known top m es := by
  induction es generalizing n m with
  | nil => exact le_trans h hm
  | cons e es ih =>
      refine ⟨h.1.trans hm, ih h.2 ?_⟩
      split <;> omega

theorem Counted.congr {known' : String → Bool} (h : Counted known top n es)
    (hk : ∀ e ∈ es, known' e.commandId = known e.commandId) : Counted known' top n es := by
  induction es generalizing n with
  | nil => exact h
  | cons e es ih =>
      refine ⟨h.1, ?_⟩
      rw [hk e List.mem_cons_self]
      exact ih h.2 fun f hf => hk f (List.mem_cons_of_mem _ hf)

/-- The queue with another top that it reaches. -/
theorem Counted.with_top {top' : Int} (h : Counted known top n es)
    (ht : top' ≤ n + unknownCount known es) : Counted known top' n es := by
  induction es generalizing n with
  | nil =>
      show top' ≤ n
      simpa [unknownCount] using ht
  | cons e es ih =>
      refine ⟨h.1, ih h.2 ?_⟩
      unfold unknownCount at ht ⊢
      rw [List.countP_cons] at ht
      by_cases hk : known e.commandId = true
      · simpa [hk] using ht
      · simp only [hk, Bool.not_false, if_true, if_false, Bool.false_eq_true] at ht ⊢
        push_cast at ht
        omega

/-- An entry joins the queue. -/
theorem Counted.snoc {e : OutboxEntry} (h : Counted known top n es)
    (hb : e.envelope.baseRevision ≤ top) (hk : known e.commandId = false) :
    Counted known (top + 1) n (es ++ [e]) := by
  induction es generalizing n with
  | nil =>
      have h : top ≤ n := h
      refine ⟨hb.trans h, ?_⟩
      rw [hk]
      show top + 1 ≤ n + 1
      omega
  | cons f es ih => exact ⟨h.1, ih h.2⟩

/-- Where no other entry has the identifier, the others are as known as before. -/
theorem learn_rest {e : OutboxEntry} (h : e.commandId ∉ es.map (·.commandId)) :
    ∀ f ∈ es, learn known e.commandId f.commandId = known f.commandId := by
  intro f hf
  have hne : e.commandId ≠ f.commandId := fun he => h (he ▸ List.mem_map_of_mem hf)
  simp [learn, hne]

/-- The server takes one command: it counts one more, and one entry fewer is not known. -/
theorem Counted.learn {i : String} (h : Counted known top n es)
    (hnodup : (es.map (·.commandId)).Nodup) :
    Counted (Stowplan.learn known i) top (n + 1) es := by
  induction es generalizing n with
  | nil =>
      have h : top ≤ n := h
      show top ≤ n + 1
      omega
  | cons e es ih =>
      rw [List.map_cons, List.nodup_cons] at hnodup
      refine ⟨h.1.trans (by omega), ?_⟩
      by_cases hid : e.commandId = i
      · -- the entry itself is taken: the rest does not change
        subst hid
        have hknown : Stowplan.learn known e.commandId e.commandId = true := by
          simp [Stowplan.learn]
        rw [hknown, if_pos rfl]
        refine (h.2.congr (learn_rest hnodup.1)).mono ?_
        split <;> omega
      · have hknown : Stowplan.learn known i e.commandId = known e.commandId := by
          simp [Stowplan.learn, Ne.symm hid]
        rw [hknown]
        refine (ih h.2 hnodup.2).mono ?_
        split <;> omega

theorem unknownCount_learn {id : String} (hnodup : (es.map (·.commandId)).Nodup) :
    unknownCount known es ≤ unknownCount (learn known id) es + 1 := by
  unfold unknownCount
  induction es with
  | nil => exact Nat.zero_le _
  | cons e es ih =>
      rw [List.map_cons, List.nodup_cons] at hnodup
      rw [List.countP_cons, List.countP_cons]
      by_cases hid : e.commandId = id
      · subst hid
        have hrest : es.countP (fun f => !learn known e.commandId f.commandId) =
            es.countP fun f => !known f.commandId :=
          List.countP_congr fun f hf => by rw [learn_rest hnodup.1 f hf]
        rw [hrest]
        split <;> split <;> omega
      · have hknown : learn known id e.commandId = known e.commandId := by
          simp [learn, Ne.symm hid]
        rw [hknown]
        have := ih hnodup.2
        omega

/-- A rewrite of the queue entry by entry. -/
theorem Counted.queued {fs : List OutboxEntry} (h : Counted known top n es) (hq : Queued es fs) :
    Counted known top n fs := by
  induction hq generalizing n with
  | nil => exact h
  | cons hef _ ih =>
      refine ⟨by rw [hef.base]; exact h.1, ?_⟩
      rw [hef.id]
      exact ih h.2

/-- Entries that are known leave the queue. -/
theorem Counted.filterMap {f : OutboxEntry → Option OutboxEntry} (h : Counted known top n es)
    (hnone : ∀ e ∈ es, f e = none → known e.commandId = true)
    (hsome : ∀ e ∈ es, ∀ g, f e = some g → Follows e g) :
    Counted known top n (es.filterMap f) := by
  induction es generalizing n with
  | nil => exact h
  | cons e es ih =>
      have hrest := ih h.2 (fun g hg => hnone g (List.mem_cons_of_mem _ hg))
        fun g hg => hsome g (List.mem_cons_of_mem _ hg)
      rw [List.filterMap_cons]
      cases hf : f e with
      | none =>
          rw [hnone e List.mem_cons_self hf, if_pos rfl] at hrest
          exact hrest
      | some g =>
          have hfollows := hsome e List.mem_cons_self g hf
          refine ⟨by rw [hfollows.base]; exact h.1, ?_⟩
          rw [hfollows.id]
          exact hrest

/-- No entry of the batch stands behind a blocked one that is not known. -/
def SendsInOrder (known : String → Bool) (outbox batch : List OutboxEntry) : Prop :=
  ∀ before e after, outbox = before ++ e :: after → e ∈ batch →
    ∀ b ∈ before, b.status = .blocked → known b.commandId = true

/-- **Sent in order, the entries of a batch are based on no more than what the server counts
    along the batch.** -/
theorem Counted.batch {batch : List OutboxEntry} (h : Counted known top n es)
    (ho : SendsInOrder known es batch)
    (hb : batch <+: es.filter fun e => e.status = .pending) (p : Nat) (e : OutboxEntry)
    (hp : batch[p]? = some e) : e.envelope.baseRevision ≤ n + p := by
  induction es generalizing n batch p with
  | nil =>
      rw [List.filter_nil, List.prefix_nil] at hb
      rw [hb] at hp
      simp at hp
  | cons x es ih =>
      by_cases hx : x.status = .pending
      · rw [List.filter_cons_of_pos (by simpa using hx)] at hb
        cases batch with
        | nil => simp at hp
        | cons y batch =>
            obtain ⟨rfl, hb'⟩ := List.cons_prefix_cons.mp hb
            cases p with
            | zero =>
                simp only [List.getElem?_cons_zero, Option.some.injEq] at hp
                subst hp
                simpa using h.1
            | succ p =>
                have hle : (if known y.commandId = true then n else n + 1) ≤ n + 1 := by
                  split <;> omega
                have := ih (h.2.mono hle) (fun before e after hs he b hbm hbb =>
                  ho (y :: before) e after (by rw [hs]; rfl) (List.mem_cons_of_mem _ he) b
                    (List.mem_cons_of_mem _ hbm) hbb) hb' p (by simpa using hp)
                push_cast
                omega
      · rw [List.filter_cons_of_neg (by simpa using hx)] at hb
        have hrest : SendsInOrder known es batch := fun before e after hs he b hbm hbb =>
          ho (x :: before) e after (by rw [hs]; rfl) he b (List.mem_cons_of_mem _ hbm) hbb
        -- an entry of the batch follows, so the blocked one is known
        have hin : e ∈ es := (List.mem_filter.mp (hb.subset (List.mem_of_getElem? hp))).1
        obtain ⟨before, after, hs⟩ := List.append_of_mem hin
        have hblocked : x.status = .blocked := by
          cases hstatus : x.status with
          | pending => exact absurd hstatus hx
          | blocked => rfl
        have hk := ho (x :: before) e after (by rw [hs]; rfl) (List.mem_of_getElem? hp) x
          List.mem_cons_self hblocked
        have h2 := h.2
        rw [hk, if_pos rfl] at h2
        exact ih h2 hrest hb p hp

end Counted

/-! ## 2. When the server refuses a command as ahead -/

section Ahead

variable [Host] {initial : WorkspaceState} {b b' : Batch}

/-- The receipt of a command that was refused with `REVISION_AHEAD`. -/
def SyncReceipt.ahead (receipt : SyncReceipt) : Bool :=
  receipt.status = .rejected && receipt.conflicts.isNone && receipt.quota.isNone &&
    receipt.message = some "REVISION_AHEAD: Command was created from a future workspace revision"

omit [Host] in
/-- Another code gives another text. -/
theorem otherCode_text {code : String} (h : otherCode code = true) (message : String) :
    code ++ ": " ++ message ≠
      "REVISION_AHEAD: Command was created from a future workspace revision" := by
  intro he
  unfold otherCode at h
  simp only [Bool.and_eq_true, bne_iff_ne, ne_eq, Bool.not_eq_true', List.contains_eq_mem,
    decide_eq_false_iff_not] at h
  obtain ⟨hne, hcolon⟩ := h
  have hlist := congrArg (fun t : String => t.toList.takeWhile (· ≠ ':')) he
  have hcode : (code ++ ": " ++ message).toList.takeWhile (· ≠ ':') = code.toList := by
    rw [String.toList_append, String.toList_append, List.append_assoc,
      List.takeWhile_append_of_pos fun c hc => by
        simpa using fun hc' : c = ':' => hcolon (hc' ▸ hc)]
    have : ": ".toList = [':', ' '] := by decide
    rw [this]
    simp
  rw [hcode] at hlist
  exact hne (String.toList_inj.mp (hlist.trans (by decide)))

/-- A command that is judged by a revision the workspace has is not refused as ahead. -/
theorem rejection_notAhead {command : CommandEnvelope} {e : SyncError} {receipt : SyncReceipt}
    {commandId : String} {revision : Int}
    (hbase : command.baseRevision ≤ b.state.workspace.revision)
    (he : applyAndCompact b command = .error e)
    (hr : rejection commandId revision e = .ok receipt) : receipt.ahead = false := by
  unfold applyAndCompact at he
  rcases except_bind_error.mp he with he | ⟨r, hr', he⟩
  · cases happly : applyCommand b.state command with
    | ok r => rw [happly] at he; cases he
    | error t =>
        rw [happly] at he
        cases he
        cases t with
        | domain code message =>
            have hother := applyCommand_refuses b.state command hbase code message happly
            cases hr
            simp [SyncReceipt.ahead, otherCode_text hother]
        | conflict message conflicts => cases hr; simp [SyncReceipt.ahead]
        | crash message => cases hr
  · rcases except_bind_error.mp he with he | ⟨_, _, he⟩
    · obtain ⟨q, rfl⟩ := mapError_error he
      cases hr
      simp [SyncReceipt.ahead]
    · cases he

omit [Host] in
/-- Within the bound, a command is judged by a revision the workspace has. -/
theorem rebasedEnvelope_le {envelope : CommandEnvelope}
    (h : envelope.baseRevision ≤ initial.workspace.revision + b.receipts.length) :
    (rebasedEnvelope initial b envelope).baseRevision ≤ b.state.workspace.revision := by
  unfold rebasedEnvelope
  simp only [Bool.and_eq_true, decide_eq_true_eq]
  split
  · exact le_refl _
  · rename_i hno
    exact not_lt.mp fun hlt => hno ⟨hlt, h⟩

theorem syncCommand_notAhead {envelope : CommandEnvelope} {receipt : SyncReceipt}
    (h : syncCommand initial b envelope = .ok b')
    (hr : b'.receipts = b.receipts ++ [receipt])
    (hbase : envelope.baseRevision ≤ initial.workspace.revision + b.receipts.length) :
    receipt.ahead = false := by
  unfold syncCommand at h
  simp only at h
  split at h
  · cases h
    rw [← (List.append_inj_right hr rfl |> List.singleton_inj.mp)]
    simp [SyncReceipt.ahead]
  · split at h
    · cases h
      rw [← (List.append_inj_right hr rfl |> List.singleton_inj.mp)]
      simp [SyncReceipt.ahead]
    · rename_i e he
      simp only [result_bind_ok, result_pure_ok] at h
      obtain ⟨r, hrej, rfl⟩ := h
      have hreceipt := List.singleton_inj.mp (List.append_inj_right hr rfl)
      subst hreceipt
      exact rejection_notAhead (rebasedEnvelope_le hbase) he hrej

/-- **A batch whose commands are based on no more than the server counts along it** is answered
    without `REVISION_AHEAD`. -/
theorem syncLoop_notAhead {commands : List CommandEnvelope}
    (h : syncLoop initial b commands = .ok b') (p : Nat) (t : Turn)
    (ht : (turnsOf initial b commands)[p]? = some t)
    (hbase : t.envelope.baseRevision ≤
      initial.workspace.revision + (b.receipts.length + p : Nat)) : t.receipt.ahead = false := by
  induction commands generalizing b p with
  | nil => simp [turnsOf] at ht
  | cons envelope commands ih =>
      simp only [syncLoop, result_bind_ok] at h
      obtain ⟨c, hc, h⟩ := h
      obtain ⟨receipt, hreceipt, -, -⟩ := syncCommand_turn hc
      have hlast : c.receipts.getLast? = some receipt := by rw [hreceipt]; simp
      have hlength : c.receipts.length = b.receipts.length + 1 := by rw [hreceipt]; simp
      simp only [turnsOf, hc, hlast] at ht
      cases p with
      | zero =>
          simp only [List.getElem?_cons_zero, Option.some.injEq] at ht
          subst ht
          exact syncCommand_notAhead hc hreceipt (by simpa using hbase)
      | succ p =>
          refine ih h p (by simpa using ht) ?_
          rw [hlength]
          have : b.receipts.length + 1 + p = b.receipts.length + (p + 1) := by omega
          rw [this]
          exact hbase

end Ahead

/-! ## 3. The queue while the server moves on -/

section History

variable {s₀ : WorkspaceState} {H : List Turn} {top : Int} {es : List OutboxEntry}

theorem recorded_snoc (t : Turn) :
    recorded s₀ (H ++ [t]) = learn (recorded s₀ H) t.envelope.id := by
  funext x
  rw [recorded_append]
  simp [learn]

/-- A queue stays counted while the server applies commands. -/
theorem Counted.history (h : Counted (recorded s₀ H) top (s₀.workspace.revision + H.length) es)
    (hnodup : (es.map (·.commandId)).Nodup) (ts : List Turn) :
    Counted (recorded s₀ (H ++ ts)) top (s₀.workspace.revision + (H ++ ts).length) es := by
  induction ts generalizing H with
  | nil => simpa using h
  | cons t ts ih =>
      rw [List.append_cons]
      refine ih ?_
      have hnext := h.learn (i := t.envelope.id) hnodup
      rw [recorded_snoc, List.length_append, List.length_singleton]
      push_cast
      rw [← add_assoc]
      exact hnext

/-- Entries that were not recorded at some time are recorded by what was applied since. -/
theorem unknownCount_history (hnodup : (es.map (·.commandId)).Nodup) (ts : List Turn) :
    unknownCount (recorded s₀ H) es ≤
      unknownCount (recorded s₀ (H ++ ts)) es + ts.length := by
  induction ts generalizing H with
  | nil => simp
  | cons t ts ih =>
      have hone : unknownCount (recorded s₀ H) es ≤
          unknownCount (recorded s₀ (H ++ [t])) es + 1 := by
        rw [recorded_snoc]
        exact unknownCount_learn hnodup
      have hrest := ih (H := H ++ [t])
      rw [List.append_cons, List.length_cons]
      omega

/-- A queue none of whose entries a snapshot records, rebased on that snapshot. -/
theorem Counted.rebase {seen : Nat} {top' : Int}
    (h : Counted (recorded s₀ H) top (s₀.workspace.revision + H.length) es)
    (hnodup : (es.map (·.commandId)).Nodup) (hseen : seen ≤ H.length)
    (hnew : ∀ e ∈ es, recorded s₀ (H.take seen) e.commandId = false)
    (htop : top' = s₀.workspace.revision + seen + es.length) :
    Counted (recorded s₀ H) top' (s₀.workspace.revision + H.length) es := by
  have hcount : unknownCount (recorded s₀ (H.take seen)) es ≤
      unknownCount (recorded s₀ (H.take seen ++ H.drop seen)) es + (H.drop seen).length :=
    unknownCount_history hnodup (H.drop seen)
  rw [List.take_append_drop, List.length_drop] at hcount
  have hall : unknownCount (recorded s₀ (H.take seen)) es = es.length :=
    List.countP_eq_length.mpr fun e he => by rw [hnew e he]; rfl
  refine h.with_top ?_
  omega

end History

/-! ## 4. The invariant -/

section Invariant

variable [Host] [Collation] {workspaceId : String} {s₀ : WorkspaceState} {N M : Network}

/-- **No command of the device is answered `REVISION_AHEAD`.** -/
def NeverAhead (N : Network) : Prop :=
  ∀ a ∈ N.server.answers, ∀ t ∈ a.turns, t.envelope.id ∈ N.device.ids → t.receipt.ahead = false

/-- How many commands had taken effect when the snapshot of a call was loaded, or would be if it
    were loaded now. -/
def Call.seen (c : Call) (H : List Turn) : Nat :=
  match c.loaded with
  | some l => l.seen
  | none => H.length

/-- The commands of a batch that the device made are based on no more than the server counts
    along the batch. -/
def Within (ids : List String) (n : Int) (commands : List CommandEnvelope) : Prop :=
  ∀ (p : Nat) (envelope : CommandEnvelope), commands[p]? = some envelope → envelope.id ∈ ids →
    envelope.baseRevision ≤ n + p

/-- The queue of a replica is counted. -/
structure CountedReplica (s₀ : WorkspaceState) (H : List Turn) (r : LocalReplica) : Prop where
  once : (r.outbox.map (·.commandId)).Nodup
  counted : Counted (recorded s₀ H) r.state.workspace.revision
    (s₀.workspace.revision + H.length) r.outbox

/-- The invariant of a run that counts together: the server has its own, the queue is complete, and
    the replica counts for the history. -/
structure CountInv (s₀ : WorkspaceState) (N : Network) : Prop where
  server : ServerInv s₀ N.server
  queue : NoEditLost N.device
  replica : CountedReplica s₀ N.server.history N.device.replica
  reads : ∀ v ∈ N.device.reads, CountedReplica s₀ N.server.history v
  calls : ∀ c ∈ N.server.calls, Within N.device.ids
    (s₀.workspace.revision + c.seen N.server.history) c.commands
  answers : NeverAhead N
  responses : ∀ r ∈ N.responses, r.seen ≤ N.server.history.length ∧
    r.state.workspace.revision = s₀.workspace.revision + r.seen ∧
    ∀ receipt ∈ r.receipts, receipt.saved = true →
      recorded s₀ N.server.history receipt.commandId = true

omit [Host] [Collation] in
/-- Normalising and rewriting a queue entry by entry keeps it counted. -/
theorem CountedReplica.queued {H : List Turn} {r t : LocalReplica} (h : CountedReplica s₀ H r)
    (hq : Queued r.outbox t.outbox)
    (hr : t.state.workspace.revision = r.state.workspace.revision) : CountedReplica s₀ H t :=
  ⟨by rw [hq.ids]; exact h.once, by rw [hr]; exact h.counted.queued hq⟩

omit [Host] [Collation] in
theorem CountedReplica.normalize {H : List Turn} {r t : LocalReplica}
    (h : CountedReplica s₀ H r) (hn : normalizeLocalReplica r = .ok t) :
    CountedReplica s₀ H t := by
  obtain ⟨hq, hstate⟩ := normalizeLocalReplica_queued hn
  exact h.queued hq (congrArg Workspace.revision (normalized_kept hstate).workspace)

omit [Host] [Collation] in
theorem CountedReplica.history {H : List Turn} {r : LocalReplica} (h : CountedReplica s₀ H r)
    (ts : List Turn) : CountedReplica s₀ (H ++ ts) r :=
  ⟨h.once, h.counted.history h.once ts⟩

/-- What keeps the two counts together: no flush sends an entry past a blocked one that the
    server has not recorded, and no response takes effect whose snapshot already holds an entry
    that stays in a queue that moves on. -/
def CountsTogether (s₀ : WorkspaceState) (N : Network) : NetworkAction → Prop
  | .flush value batch => SendsInOrder (recorded s₀ N.server.history) value.outbox batch
  | .success batch response => ∀ current, normalizeLocalReplica N.device.replica = .ok current →
      setAside current batch response.state = true ∨
      (∃ e ∈ remaining current batch response.receipts, e.status = .blocked) ∨
      ∀ e ∈ remaining current batch response.receipts,
        recorded s₀ (N.server.history.take response.seen) e.commandId = false
  | _ => True

/-- **A response keeps the queue counted.** -/
theorem CountedReplica.success {H : List Turn} {r next : LocalReplica} {sent : List OutboxEntry}
    {response : Response} {syncedAt : String} {context : SyncServerContext}
    (h : CountedReplica s₀ H r) (hseen : response.seen ≤ H.length)
    (hrev : response.state.workspace.revision = s₀.workspace.revision + response.seen)
    (hsaved : ∀ receipt ∈ response.receipts, receipt.saved = true →
      recorded s₀ H receipt.commandId = true)
    (hok : setAside r sent response.state = true ∨
      (∃ e ∈ remaining r sent response.receipts, e.status = .blocked) ∨
      ∀ e ∈ remaining r sent response.receipts,
        recorded s₀ (H.take response.seen) e.commandId = false)
    (hs : applySuccessfulSyncResponse r sent response.state response.receipts syncedAt context =
      .ok next) : CountedReplica s₀ H next := by
  obtain ⟨reconciled, hr, hq, hstate⟩ := applySuccessful_ok hs
  refine CountedReplica.queued (r := reconciled) ?_ hq (by rw [hstate])
  rcases reconcileReplica_ok.mp hr with ⟨-, rfl⟩ | ⟨hno, t, state, ht, hrebased, rfl⟩
  · exact h
  · -- the entries that leave are recorded
    have hgone : ∀ e ∈ r.outbox, remainingEntry (sent.map (·.commandId)) response.receipts e =
        none → recorded s₀ H e.commandId = true := by
      intro e _ hnone
      obtain ⟨receipt, hin, hid⟩ := List.mem_map.mp (saved_of_removed hnone)
      rw [← hid]
      exact hsaved receipt (List.mem_filter.mp hin).1 (List.mem_filter.mp hin).2
    have honce : ((remaining r sent response.receipts).map (·.commandId)).Nodup :=
      (remaining_ids r sent response.receipts).1.nodup h.once
    have hcounted := h.counted.filterMap hgone fun e _ f hf => remainingEntry_follows hf
    refine ⟨honce, ?_⟩
    rcases rebasedState_ok.mp hrebased with ⟨-, rfl⟩ | ⟨hfree, happly⟩
    · exact hcounted
    · have hnew := (hok.resolve_left (by rw [hno]; decide)).resolve_left
        fun ⟨e, he, hb⟩ => hfree e he hb
      refine Counted.rebase hcounted honce hseen hnew ?_
      rw [applyAll_revision happly, (normalized_kept ht).workspace, hrev]

/-- What a device does without the server. -/
theorem local_counted {D E : Device} {H : List Turn} {a : DeviceAction}
    (h : CountedReplica s₀ H D.replica) (hr : ∀ v ∈ D.reads, CountedReplica s₀ H v)
    (ha : a.isLocal = true) (hs : DeviceStep D a E) :
    CountedReplica s₀ H E.replica ∧ (∀ v ∈ E.reads, CountedReplica s₀ H v) ∧ E.ids = D.ids := by
  cases hs with
  | sign => exact ⟨h, hr, rfl⟩
  | normalize replica hn => exact ⟨h.normalize hn, hr, rfl⟩
  | read value hn =>
      refine ⟨h, ?_, rfl⟩
      intro v hv
      rcases List.mem_append.mp hv with hv | hv
      · exact hr v hv
      · rw [List.mem_singleton.mp hv]
        exact h.normalize hn
  | refusal replica batch receipts message attemptedAt definitive context hb hm =>
      obtain ⟨current, hn, hu⟩ := mutateWorkspaceReplica_ok.mp hm
      obtain rfl := Except.ok.inj hu
      exact ⟨(h.normalize hn).queued (applyRefused_queued _ _ _ _ _ _ _) rfl, hr, rfl⟩
  | access replica authorization unchanged summary hm =>
      obtain ⟨current, hn, hu⟩ := mutateWorkspaceReplica_ok.mp hm
      obtain ⟨hq, hstate⟩ := writeWorkspaceAuthorization_queued hu
      exact ⟨(h.normalize hn).queued hq (by rw [hstate]), hr, rfl⟩
  | deletion replica authorization summary hm =>
      obtain ⟨current, hn, hu⟩ := mutateWorkspaceReplica_ok.mp hm
      obtain ⟨hq, hstate⟩ := applyConfirmedServerDeletion_queued hu
      exact ⟨(h.normalize hn).queued hq (by rw [hstate]), hr, rfl⟩
  | opening replica prepared summary hm =>
      obtain ⟨current, hn, hu⟩ := mutateWorkspaceReplica_ok.mp hm
      obtain rfl := Except.ok.inj hu
      exact ⟨(h.normalize hn).queued (openServerWorkspace_queued _ _ _) rfl, hr, rfl⟩
  | edit => cases ha
  | flush => cases ha
  | success => cases ha

omit [Collation] in
/-- An accepted command is based on a revision the workspace has. -/
theorem applyCommand_base {s : WorkspaceState} {env : CommandEnvelope} {r : CommandResult}
    (h : applyCommand s env = .ok r) : env.baseRevision ≤ s.workspace.revision := by
  obtain ⟨hcheck, -⟩ := applyCommand_ok h
  simp only [checkEnvelope, result_bind_ok, refuse_ok, decide_eq_false_iff_not, not_lt] at hcheck
  obtain ⟨_, -, _, -, _, -, _, hbase, -⟩ := hcheck
  exact hbase

/-- **An edit keeps the queue counted.** -/
theorem edit_counted {D E : Device} {H : List Turn} (h : CountedReplica s₀ H D.replica)
    (hE : NoEditLost E) (hnew : ∀ id ∈ E.ids, id ∉ D.ids → recorded s₀ H id = false)
    (hs : DeviceStep D .edit E) :
    CountedReplica s₀ H E.replica ∧ E.reads = D.reads ∧
      ∃ id, E.ids = D.ids ++ [id] ∧ id ∉ D.ids := by
  cases hs with
  | edit replica terminal envelope updatedAt hid hm =>
      obtain ⟨current, hn, hu⟩ := mutateWorkspaceReplica_ok.mp hm
      obtain ⟨r, hr, rfl⟩ := enqueue_ok hu
      have hids : (D.created ++ [⟨envelope.id, D.signedIn⟩] : List Created).map (·.id) =
          D.ids ++ [envelope.id] := by
        rw [List.map_append]
        rfl
      have hrev := (applyCommand_logged hr).1.revision
      refine ⟨⟨hE.once, ?_⟩, rfl, envelope.id, hids, hid⟩
      show Counted _ r.state.workspace.revision _ (current.outbox ++ [_])
      rw [hrev]
      refine (h.normalize hn).counted.snoc (applyCommand_base hr) (hnew envelope.id ?_ hid)
      show envelope.id ∈ (D.created ++ [⟨envelope.id, D.signedIn⟩] : List Created).map (·.id)
      rw [hids]
      exact List.mem_append_right _ List.mem_cons_self

omit [Collation] in
/-- What is said of the calls of a device stays true while the server takes its steps, and the
    answers to them are not ahead. -/
theorem serverStep_within {S T : Server} {b : ServerAction} {ids : List String}
    (hinv : ServerInv s₀ S)
    (hcalls : ∀ c ∈ S.calls, Within ids (s₀.workspace.revision + c.seen S.history) c.commands)
    (hanswers : ∀ a ∈ S.answers, ∀ t ∈ a.turns, t.envelope.id ∈ ids → t.receipt.ahead = false)
    (hb : b ≠ .receive) (h : ServerStep workspaceId S b T) :
    (∀ c ∈ T.calls, Within ids (s₀.workspace.revision + c.seen T.history) c.commands) ∧
      ∀ a ∈ T.answers, ∀ t ∈ a.turns, t.envelope.id ∈ ids → t.receipt.ahead = false := by
  -- a larger history only raises the bound
  have hmono : ∀ (c : Call) (ts : List Turn), c ∈ S.calls →
      Within ids (s₀.workspace.revision + c.seen (S.history ++ ts)) c.commands := by
    intro c ts hc p envelope hp hid
    have hle : c.seen S.history ≤ c.seen (S.history ++ ts) := by
      unfold Call.seen
      split
      · exact le_refl _
      · rw [List.length_append]
        omega
    have := hcalls c hc p envelope hp hid
    omega
  have hanswered : ∀ (call : Call) (l : Loaded) (batch : Batch), call ∈ S.calls →
      call.loaded = some l → syncBatch l.initial call.commands = .ok batch →
      ∀ t ∈ turnsOf l.initial (startBatch l.initial) call.commands, t.envelope.id ∈ ids →
        t.receipt.ahead = false := by
    intro call l batch hc hl hsync t ht hid
    obtain ⟨p, hp⟩ := List.getElem?_of_mem ht
    have hcommand : call.commands[p]? = some t.envelope := by
      rw [← (syncBatch_told hsync).commands, List.getElem?_map, hp]
      rfl
    have hwithin := hcalls call hc p t.envelope hcommand hid
    have hinitial : l.initial.workspace.revision = s₀.workspace.revision + l.seen := by
      have hfrom := hinv.calls call hc l hl
      have hlength := List.length_take_of_le hfrom.seen
      rw [(reload_kept hfrom.initial).workspace, endOf_revision (chained_take hinv.chain l.seen)
        fun u hu => hinv.effect u (List.mem_of_mem_take hu), hlength]
    refine syncLoop_notAhead hsync p t hp ?_
    rw [hinitial]
    unfold Call.seen at hwithin
    rw [hl] at hwithin
    simpa [startBatch] using hwithin
  have hkeep : ∀ (before after : List Call) (call : Call), S.calls = before ++ call :: after →
      ∀ c ∈ before ++ after, c ∈ S.calls := by
    intro before after call hsplit c hc
    rw [hsplit]
    rcases List.mem_append.mp hc with hc | hc
    · exact List.mem_append_left _ hc
    · exact List.mem_append_right _ (List.mem_cons_of_mem _ hc)
  cases h with
  | access => exact ⟨hcalls, hanswers⟩
  | receive => exact absurd rfl hb
  | load before after call n initial hsplit hl =>
      have hcall : call ∈ S.calls := by rw [hsplit]; simp
      refine ⟨fun c hc => ?_, hanswers⟩
      rcases List.mem_append.mp hc with hc | hc
      · exact hcalls c (by rw [hsplit]; exact List.mem_append_left _ hc)
      · rcases List.mem_cons.mp hc with rfl | hc
        · have := hcalls call hcall
          unfold Call.seen at this
          rw [hl] at this
          exact this
        · exact hcalls c (by rw [hsplit]; exact List.mem_append_right _ (List.mem_cons_of_mem _ hc))
  | answer before after call l batch hsplit hl hsync =>
      have hcall : call ∈ S.calls := by rw [hsplit]; simp
      refine ⟨fun c hc => hcalls c (hkeep before after call hsplit c hc), fun a ha => ?_⟩
      rcases List.mem_append.mp ha with ha | ha
      · exact hanswers a ha
      · rw [List.mem_singleton.mp ha]
        exact hanswered call l batch hcall hl hsync
  | swap before after call l batch db hsplit hl hsync =>
      have hcall : call ∈ S.calls := by rw [hsplit]; simp
      refine ⟨fun c hc => hmono c _ (hkeep before after call hsplit c hc), fun a ha => ?_⟩
      rcases List.mem_append.mp ha with ha | ha
      · exact hanswers a ha
      · rw [List.mem_singleton.mp ha]
        exact hanswered call l batch hcall hl hsync
  | swapUnanswered before after call l batch db hsplit hl hsync =>
      exact ⟨fun c hc => hmono c _ (hkeep before after call hsplit c hc), hanswers⟩
  | retry before after call l batch hsplit hl =>
      have hcall : call ∈ S.calls := by rw [hsplit]; simp
      refine ⟨fun c hc => ?_, hanswers⟩
      rcases List.mem_append.mp hc with hc | hc
      · exact hcalls c (by rw [hsplit]; exact List.mem_append_left _ hc)
      · rcases List.mem_cons.mp hc with rfl | hc
        · intro p envelope hp hid
          have hwithin := hcalls call hcall p envelope hp hid
          have hseen := (hinv.calls call hcall l hl).seen
          unfold Call.seen at hwithin
          rw [hl] at hwithin
          show envelope.baseRevision ≤ s₀.workspace.revision + (S.history.length : Int) + p
          dsimp only at hwithin
          omega
        · exact hcalls c (by rw [hsplit]; exact List.mem_append_right _ (List.mem_cons_of_mem _ hc))
  | fail before after call e hsplit =>
      exact ⟨fun c hc => hcalls c (hkeep before after call hsplit c hc), hanswers⟩

omit [Collation] in
theorem CountInv.other {call : Call} (h : CountInv s₀ N)
    (hw : ∀ envelope ∈ call.commands, envelope.workspaceId = workspaceId)
    (hl : call.loaded = none) (hids : ∀ envelope ∈ call.commands, envelope.id ∉ N.device.ids) :
    CountInv s₀ { N with server := { N.server with calls := N.server.calls ++ [call] } } where
  server := step_serverInv h.server (.receive N.server call hw hl)
  queue := h.queue
  replica := h.replica
  reads := h.reads
  calls := by
    intro c hc p envelope hp hid
    rcases List.mem_append.mp hc with hc | hc
    · exact h.calls c hc p envelope hp hid
    · rw [List.mem_singleton.mp hc] at hp
      exact absurd hid (hids envelope (List.mem_of_getElem? hp))
  answers := h.answers
  responses := h.responses

omit [Collation] in
theorem CountInv.serverStep {S : Server} {b : ServerAction} (h : CountInv s₀ N)
    (hb : b ≠ .receive) (hs : ServerStep workspaceId N.server b S) :
    CountInv s₀ { N with server := S } := by
  obtain ⟨hcalls, hanswers⟩ := serverStep_within h.server h.calls h.answers hb hs
  obtain ⟨ts, hts⟩ := serverStep_history hs
  refine ⟨step_serverInv h.server hs, h.queue, ?_, ?_, hcalls, hanswers, ?_⟩
  · rw [hts]
    exact h.replica.history ts
  · intro v hv
    rw [hts]
    exact (h.reads v hv).history ts
  · intro r hr
    obtain ⟨hseen, hrev, hsaved⟩ := h.responses r hr
    rw [hts]
    refine ⟨hseen.trans (by rw [List.length_append]; omega), hrev, fun receipt hin hs => ?_⟩
    rw [recorded_append, hsaved receipt hin hs, Bool.true_or]

omit [Collation] in
theorem CountInv.respond {answer : Answer} {state : WorkspaceState} (h : CountInv s₀ N)
    (ha : answer ∈ N.server.answers) (hload : N.server.db.load = .ok (some state)) :
    CountInv s₀ { N with
      responses := N.responses ++
        [⟨answer.commands, answer.receipts, state, N.server.history.length⟩] } := by
  refine ⟨h.server, h.queue, h.replica, h.reads, h.calls, h.answers, ?_⟩
  intro r hr
  rcases List.mem_append.mp hr with hr | hr
  · exact h.responses r hr
  · rw [List.mem_singleton.mp hr]
    refine ⟨le_refl _, ?_, fun receipt hin hs => h.server.saved_recorded ha hin hs⟩
    unfold Database.load at hload
    rw [h.server.stored] at hload
    simp only [result_bind_ok, result_pure_ok, Option.some.injEq] at hload
    obtain ⟨t, ht, rfl⟩ := hload
    rw [(reload_kept (readState_ok ht)).workspace]
    exact endOf_revision h.server.chain h.server.effect

theorem CountInv.edit {D : Device} (h : CountInv s₀ N) (hs : DeviceStep N.device .edit D)
    (hnew : ∀ id ∈ D.ids, id ∉ N.device.ids → Unused s₀ N.server id) :
    CountInv s₀ { N with device := D } := by
  have hqueue := step_noEditLost h.queue hs
  obtain ⟨hreplica, hreads, id, hids, hout⟩ := edit_counted h.replica hqueue
    (fun id hid hno => (hnew id hid hno).unrecorded) hs
  have hunused : Unused s₀ N.server id :=
    hnew id (by rw [hids]; exact List.mem_append_right _ List.mem_cons_self) hout
  refine ⟨h.server, hqueue, hreplica, ?_, ?_, ?_, h.responses⟩
  · rw [hreads]
    exact h.reads
  · intro c hc p envelope hp hid
    rw [hids] at hid
    rcases List.mem_append.mp hid with hid | hid
    · exact h.calls c hc p envelope hp hid
    · exact absurd (List.mem_singleton.mp hid)
        (hunused.calls c hc envelope (List.mem_of_getElem? hp))
  · intro a ha t ht hid
    rw [hids] at hid
    rcases List.mem_append.mp hid with hid | hid
    · exact h.answers a ha t ht hid
    · refine absurd (List.mem_singleton.mp hid) (hunused.answers a ha t.envelope ?_)
      rw [← (h.server.answers a ha).commands]
      exact List.mem_map_of_mem ht

theorem CountInv.flush {D : Device} {value : LocalReplica} {account : Account}
    {batch : List OutboxEntry} {basis : CommandAuthorizationBasis} {attempts : Nat}
    (h : CountInv s₀ N) (hs : DeviceStep N.device (.flush value account) D)
    (hb : D.sent = N.device.sent ++ [⟨account, batch⟩])
    (hw : ∀ e ∈ batch, e.envelope.workspaceId = workspaceId)
    (hok : SendsInOrder (recorded s₀ N.server.history) value.outbox batch) :
    CountInv s₀ { N with
      device := D
      server := { N.server with
        calls := N.server.calls ++ [{
          commands := batch.map fun e => routed account.id basis e.envelope
          authorization := some ⟨basis, account.id⟩
          attempts
          loaded := none }] } } := by
  have hqueue := step_noEditLost h.queue hs
  cases hs with
  | flush value account allowEmpty batch' hv ha hflush =>
      obtain rfl : batch' = batch := by
        have := List.append_cancel_left hb
        cases this
        rfl
      refine ⟨?_, hqueue, h.replica, h.reads, ?_, h.answers, h.responses⟩
      · refine step_serverInv h.server
          (show ServerStep workspaceId _ _ _ from .receive N.server _ ?_ rfl)
        intro envelope henvelope
        obtain ⟨e, he, rfl⟩ := List.mem_map.mp henvelope
        exact hw e he
      · intro c hc p envelope hp hid
        rcases List.mem_append.mp hc with hc | hc
        · exact h.calls c hc p envelope hp hid
        · rw [List.mem_singleton.mp hc, List.getElem?_map] at hp
          obtain ⟨e, he, rfl⟩ := Option.map_eq_some_iff.mp hp
          rw [List.mem_singleton.mp hc]
          refine (h.reads value hv).counted.batch hok ?_ p e he
          rw [flushBatch_select hflush]
          exact selectPendingSyncBatch_starts _ _

/-- **Every step that keeps the counts together keeps the invariant.** -/
theorem step_countInv {a : NetworkAction} (h : CountInv s₀ N)
    (hs : CountsTogether s₀ N a ∧ NetworkStep workspaceId s₀ N a M) : CountInv s₀ M := by
  obtain ⟨hok, hs⟩ := hs
  cases hs with
  | other call hw hl hids => exact h.other hw hl hids
  | server b S hb hs => exact h.serverStep hb hs
  | respond answer state ha hload => exact h.respond ha hload
  | device b D hlocal hs =>
      obtain ⟨hreplica, hreads, hids⟩ := local_counted h.replica h.reads hlocal hs
      refine ⟨h.server, step_noEditLost h.queue hs, hreplica, hreads, ?_, ?_, h.responses⟩
      · intro c hc
        rw [hids]
        exact h.calls c hc
      · intro a ha t ht hid
        rw [hids] at hid
        exact h.answers a ha t ht hid
  | edit D hs hnew => exact h.edit hs hnew
  | flush D value account batch basis attempts hs hb hw => exact h.flush hs hb hw hok
  | success replica batch response syncedAt context hb hr hc hm =>
      have hqueue := step_noEditLost h.queue (.success N.device replica batch _ _ syncedAt context
        hb hm)
      obtain ⟨current, hn, hu⟩ := mutateWorkspaceReplica_ok.mp hm
      obtain ⟨hseen, hrev, hsaved⟩ := h.responses response hr
      exact ⟨h.server, hqueue,
        (h.replica.normalize hn).success hseen hrev hsaved (hok current hn) hu, h.reads, h.calls,
        h.answers, h.responses⟩

/-- **A device that counts together with the server is never told that it is ahead**: in every
    run in which no flush sends an entry past a blocked one that the server has not recorded, and
    no response takes effect whose snapshot already holds an entry that stays. -/
theorem network_neverAhead (workspaceId : String) (s₀ : WorkspaceState) (N : Network)
    (h : ((network workspaceId s₀).restrict (CountsTogether s₀)).Reachable N) :
    NeverAhead N := by
  have hstep : ∀ N a M, CountInv s₀ N →
      ((network workspaceId s₀).restrict (CountsTogether s₀)).step N a M → CountInv s₀ M :=
    fun _ _ _ hN hs => step_countInv hN hs
  refine (h.invariant ?_ hstep).answers
  rintro N ⟨⟨houtbox, hreads, hsent, hcreated, -⟩, hserver, hresponses, hrev⟩
  have hinv := reachable_serverInv ⟨N.server, [], hserver, .nil _⟩
  obtain ⟨-, hcalls, hanswers, -, hhistory⟩ := hserver
  refine ⟨hinv, ?_, ⟨?_, ?_⟩, ?_, ?_, ?_, ?_⟩
  · refine ⟨?_, ?_, ?_, ?_⟩
    · rw [houtbox]
      exact List.nil_sublist _
    · rw [hcreated]
      exact List.nodup_nil
    · rw [houtbox]
      exact List.nodup_nil
    · rw [hcreated]
      exact fun _ hc => absurd hc List.not_mem_nil
  · rw [houtbox]
    exact List.nodup_nil
  · rw [houtbox, hhistory]
    simpa [Counted] using hrev
  · rw [hreads]
    exact fun _ hv => absurd hv List.not_mem_nil
  · rw [hcalls]
    exact fun _ hc => absurd hc List.not_mem_nil
  · intro a ha
    rw [hanswers] at ha
    exact absurd ha List.not_mem_nil
  · rw [hresponses]
    exact fun _ hr => absurd hr List.not_mem_nil

end Invariant

/-! ## 5. Runs -/

/-- The access of the owner, as the server told it. -/
def ownerAccess : WorkspaceAccessState where
  accountId := .id "usr_a"
  accessRevision := 0
  capabilities := capabilitiesForWorkspaceRole .owner
  checkedAt := none
  kind := .server
  membershipRevision := 0
  role := some .owner
  status := .active

/-- A server that stores the snapshot, with its owner. -/
def ownedServer (s₀ : WorkspaceState) : Server where
  db := {
    snapshot := some ⟨s₀.workspace.revision, s₀⟩
    accessRevision := 0
    deleted := false
    members := fun id => if id = "usr_a" then some .owner else none
    users := fun id => if id = "usr_a" then some ⟨true, 0⟩ else none }
  calls := []
  answers := []
  failures := []
  history := []

/-- The device of the owner, which has opened a snapshot, and the server. -/
def firstNetwork (opened s₀ : WorkspaceState) : Network where
  device := { firstDevice (some firstAccount) with
    replica := { firstReplica with
      authorization := some ownerAccess
      state := opened } }
  server := ownedServer s₀
  responses := []

/-- The basis of the owner's requests. -/
def ownerBasis : CommandAuthorizationBasis := ⟨0, 0⟩

section Runs

variable [Host] [Collation]

/-- An edit of the owner. -/
def ownerEdit (replica : LocalReplica) (entry : OutboxEntry) : Option LocalReplica :=
  (mutateWorkspaceReplica replica
    (enqueue · firstAccount.ref none entry.envelope "2024-01-02T00:00:00.000Z")).toOption

/-- What a flush of the owner reads and sends, and what the server makes of it. -/
def ownerFlush (replica : LocalReplica) (db : Database) :
    Option (LocalReplica × List OutboxEntry × WorkspaceState × Batch) := do
  let value ← (normalizeLocalReplica replica).toOption
  let batch ← flushBatch value firstAccount.id false
  let commands := batch.map fun e => routed firstAccount.id ownerBasis e.envelope
  let initial ← (loadInitial db commands (some ⟨ownerBasis, firstAccount.id⟩)).toOption
  let b ← (syncBatch initial commands).toOption
  return (value, batch, initial, b)

/-- The owner's third edit, after the server refused the first two: whether it is told that it is
    ahead. -/
def aheadRun (opened s₀ : WorkspaceState) (e₁ e₂ e₃ : OutboxEntry) : Option Bool := do
  let db := (ownedServer s₀).db
  let r₁ ← ownerEdit (firstNetwork opened s₀).device.replica e₁
  let r₂ ← ownerEdit r₁ e₂
  let (_, batch, _, b) ← ownerFlush r₂ db
  let state ← db.load.toOption.join
  let r₃ ← (mutateWorkspaceReplica r₂ (applySuccessfulSyncResponse · batch state b.receipts
    "2024-01-02T00:00:00.000Z" ⟨none, none⟩)).toOption
  let r₄ ← ownerEdit r₃ e₃
  let (_, batch₂, initial, b₂) ← ownerFlush r₄ db
  let turns := turnsOf initial (startBatch initial)
    (batch₂.map fun e => routed firstAccount.id ownerBasis e.envelope)
  return !b.applied && !b₂.applied && (batch.all fun e => e.commandId != e₃.commandId) &&
    ((batch ++ batch₂).all fun e => e.envelope.workspaceId == "ws_1") &&
    turns.any fun t => t.envelope.id == e₃.commandId && t.receipt.ahead

/-- The owner's first two edits are sent together. The server refuses the first and stores the
    second, and the response takes effect. -/
def refusedRun (opened s₀ : WorkspaceState) (e₁ e₂ : OutboxEntry) : Option Bool := do
  let db := (ownedServer s₀).db
  let r₁ ← ownerEdit (firstNetwork opened s₀).device.replica e₁
  let r₂ ← ownerEdit r₁ e₂
  let (value, batch, initial, b) ← ownerFlush r₂ db
  let stored ← swapState db initial.workspace.revision b.state (some ⟨ownerBasis, firstAccount.id⟩)
  let state ← stored.load.toOption.join
  let current ← (normalizeLocalReplica r₂).toOption
  let r₃ ← (mutateWorkspaceReplica r₂ (applySuccessfulSyncResponse · batch state b.receipts
    "2024-01-02T00:00:00.000Z" ⟨none, none⟩)).toOption
  return (value.outbox.all fun f => decide (f.status = .pending)) &&
    (batch.all fun f => f.envelope.workspaceId == "ws_1") && b.applied &&
    decide (b.receipts.map (·.status) = [.rejected, .applied]) &&
    ((remaining current batch b.receipts).any fun f => decide (f.status = .blocked)) &&
    decide ((r₃.outbox.map fun f => (f.commandId, f.status)) = [(e₁.commandId, .blocked)])

variable {workspaceId : String} {s₀ : WorkspaceState} {N : Network}
  {ok : Network → NetworkAction → Prop}

/-- The run goes on with an edit of the owner. -/
theorem reachable_edit {replica : LocalReplica} {entry : OutboxEntry}
    (h : ((network workspaceId s₀).restrict ok).Reachable N)
    (hok : ∀ N, ok N .edit) (hsigned : N.device.signedIn = some firstAccount)
    (hnew : entry.commandId ∉ N.device.ids) (hunused : Unused s₀ N.server entry.commandId)
    (he : ownerEdit N.device.replica entry = some replica) :
    ((network workspaceId s₀).restrict ok).Reachable { N with
      device := { N.device with
        replica
        created := N.device.created ++ [⟨entry.commandId, N.device.signedIn⟩] } } := by
  refine h.step ⟨hok N, .edit N _ (.edit N.device replica none entry.envelope
    "2024-01-02T00:00:00.000Z" hnew ?_) ?_⟩
  · rw [hsigned]
    exact toOption_eq_some.mp he
  · intro id hid hno
    have hids : id ∈ N.device.ids ++ [entry.commandId] := by
      unfold Device.ids at hid ⊢
      rw [List.map_append] at hid
      exact hid
    rcases List.mem_append.mp hids with hid | hid
    · exact absurd hid hno
    · rw [List.mem_singleton.mp hid]
      exact hunused

/-- The network after a flush of the owner was read, sent and loaded. -/
def loadedNetwork (N : Network) (value : LocalReplica) (batch : List OutboxEntry)
    (initial : WorkspaceState) : Network :=
  { N with
    device := { N.device with
      reads := N.device.reads ++ [value]
      sent := N.device.sent ++ [⟨firstAccount, batch⟩] }
    server := { N.server with
      calls := [{
        commands := batch.map fun e => routed firstAccount.id ownerBasis e.envelope
        authorization := some ⟨ownerBasis, firstAccount.id⟩
        attempts := 0
        loaded := some ⟨initial, N.server.history.length⟩ }] } }

theorem reachable_flush {value : LocalReplica} {batch : List OutboxEntry}
    {initial : WorkspaceState} {b : Batch}
    (h : ((network workspaceId s₀).restrict ok).Reachable N)
    (hok : ∀ N a, (∀ v b, a ≠ .flush v b) → (∀ b r, a ≠ .success b r) → ok N a)
    (hflush : ∀ M, M.server = N.server → ok M (.flush value batch))
    (hsigned : N.device.signedIn = some firstAccount) (hcalls : N.server.calls = [])
    (hw : ∀ e ∈ batch, e.envelope.workspaceId = workspaceId)
    (hf : ownerFlush N.device.replica N.server.db = some (value, batch, initial, b)) :
    ((network workspaceId s₀).restrict ok).Reachable (loadedNetwork N value batch initial) ∧
      syncBatch initial (batch.map fun e => routed firstAccount.id ownerBasis e.envelope) =
        .ok b := by
  simp only [ownerFlush, Option.bind_eq_bind, Option.bind_eq_some_iff, Option.pure_def,
    Option.some.injEq, Prod.mk.injEq] at hf
  obtain ⟨v, hv, batch', hbatch, i, hi, b', hb, rfl, rfl, rfl, rfl⟩ := hf
  have hread := h.step ⟨hok N .device (by simp) (by simp),
    .device N .read _ rfl (.read N.device v (toOption_eq_some.mp hv))⟩
  have hsent := hread.step ⟨hflush _ rfl, .flush _ _ v firstAccount batch' ownerBasis 1
    (.flush _ v firstAccount false batch' (List.mem_append_right _ List.mem_cons_self) hsigned
      hbatch) rfl hw⟩
  have hloaded := hsent.step ⟨hok _ .server (by simp) (by simp),
    .server _ .load _ (by simp) (.load _ [] [] _ 0 i (by rw [hcalls]) rfl rfl
      (toOption_eq_some.mp hi))⟩
  exact ⟨hloaded, toOption_eq_some.mp hb⟩

omit [Host] [Collation] in
/-- An identifier that the first snapshot does not record and no call has is not used. -/
theorem unused_of_silent {S : Server} {id : String} (h : wasApplied s₀ id = false)
    (hhistory : S.history = []) (hcalls : ∀ c ∈ S.calls, ∀ e ∈ c.commands, e.id ≠ id)
    (hanswers : ∀ a ∈ S.answers, ∀ e ∈ a.commands, e.id ≠ id) : Unused s₀ S id :=
  ⟨h, by rw [hhistory]; exact fun _ h => absurd h List.not_mem_nil, hcalls, hanswers⟩

end Runs

theorem toOption_join {ε α : Type} {x : Except ε (Option α)} {a : α} :
    x.toOption.join = some a ↔ x = .ok (some a) := by
  cases x <;> simp [Except.toOption]

/-- The workspace after another device renamed it. -/
def renamedState : WorkspaceState := { firstState with
  workspace := { firstState.workspace with name := "Elsewhere", revision := 1 } }

/-- A shelf is put up. -/
def shelfEntry (id : String) (baseRevision : Int) : OutboxEntry :=
  pendingEntry { firstEnvelope id (.locationCreate (plainLocation "A" "Shelf" "S1" none)) with
    baseRevision }

/-- Another device has renamed the workspace. The owner's new name is refused, and stays in the
    queue, blocked; the shelf that was put up after it is stored, with the revision the owner
    counted up to. -/
theorem network_neverAhead_refused : ∃ N,
    (N.server.answers.map fun a => a.receipts.map (·.status)) = [[.rejected, .applied]] ∧
    (N.device.replica.outbox.map fun e => (e.commandId, e.status)) = [("c1", .blocked)] ∧
    @NeverAhead asciiHost N := by
  let : Host := asciiHost
  let : Collation := plainCollation
  obtain ⟨e₁, he₁⟩ : ∃ e, e = renameEntry "c1" 0 "Home" "Flat" := ⟨_, rfl⟩
  obtain ⟨e₂, he₂⟩ : ∃ e, e = shelfEntry "c2" 1 := ⟨_, rfl⟩
  obtain ⟨s₀, hs₀⟩ : ∃ s, s = renamedState := ⟨_, rfl⟩
  have hrun : refusedRun firstState s₀ e₁ e₂ = some true := by
    rw [he₁, he₂, hs₀]
    decide +kernel
  have hnew : ["c1", "c2"].all (fun id => !wasApplied s₀ id) = true := by
    rw [hs₀]
    decide +kernel
  have hrev : firstState.workspace.revision ≤ s₀.workspace.revision := by
    rw [hs₀]
    decide +kernel
  have hid₁ : e₁.commandId = "c1" := by rw [he₁]; rfl
  have hid₂ : e₂.commandId = "c2" := by rw [he₂]; rfl
  clear he₁ he₂ hs₀
  simp only [List.all_cons, List.all_nil, Bool.and_true, Bool.and_eq_true,
    Bool.not_eq_true'] at hnew
  obtain ⟨hnew₁, hnew₂⟩ := hnew
  simp only [refusedRun, Option.bind_eq_bind, Option.bind_eq_some_iff, Option.pure_def,
    Option.some.injEq] at hrun
  obtain ⟨r₁, hr₁, r₂, hr₂, ⟨v, batch, i, b⟩, hf, db, hswap, state, hload, current, hcurrent,
    r₃, hr₃, hend⟩ := hrun
  simp only [Bool.and_eq_true, List.all_eq_true, decide_eq_true_eq, beq_iff_eq,
    List.any_eq_true] at hend
  obtain ⟨⟨⟨⟨⟨hpending, hw⟩, hb⟩, hstatuses⟩, hblocked⟩, hqueue⟩ := hend
  have h₀ : ((network "ws_1" s₀).restrict (CountsTogether s₀)).Reachable
      (firstNetwork firstState s₀) :=
    ⟨_, [], ⟨⟨rfl, rfl, rfl, rfl, rfl⟩, ⟨rfl, rfl, rfl, rfl, rfl⟩, rfl, hrev⟩, .nil _⟩
  have h₁ := reachable_edit h₀ (fun _ => trivial) rfl List.not_mem_nil
    (unused_of_silent (hid₁ ▸ hnew₁) rfl (fun _ h => absurd h List.not_mem_nil)
      fun _ h => absurd h List.not_mem_nil) hr₁
  have h₂ := reachable_edit h₁ (fun _ => trivial) rfl
    (by show e₂.commandId ∉ [e₁.commandId]; rw [hid₁, hid₂]; decide)
    (unused_of_silent (hid₂ ▸ hnew₂) rfl (fun _ h => absurd h List.not_mem_nil)
      fun _ h => absurd h List.not_mem_nil) hr₂
  have hok : ∀ N a, (∀ v b, a ≠ .flush v b) → (∀ b r, a ≠ .success b r) →
      CountsTogether s₀ N a := by
    intro N a hflush hsuccess
    cases a with
    | flush v b => exact absurd rfl (hflush v b)
    | success b r => exact absurd rfl (hsuccess b r)
    | _ => trivial
  obtain ⟨h₃, hbatch⟩ := reachable_flush h₂ hok (fun M _ before f after heq _ g hg hblocked => by
    have hstatus := hpending g (by rw [heq]; exact List.mem_append_left _ hg)
    rw [hblocked] at hstatus
    cases hstatus) rfl rfl hw hf
  have h₄ := h₃.step ⟨hok _ .server (by simp) (by simp), .server _ .swap _ (by simp)
    (.swap _ [] [] _ _ b db rfl rfl hbatch hb hswap)⟩
  have h₅ := h₄.step ⟨hok _ .respond (by simp) (by simp),
    .respond _ _ state List.mem_cons_self (toOption_join.mp hload)⟩
  -- the refused edit is blocked, so the response leaves the queue where it is
  have hstays : ∀ c, normalizeLocalReplica r₂ = .ok c →
      ∃ f ∈ remaining c batch b.receipts, f.status = .blocked := by
    intro c hc
    cases hc.symm.trans (toOption_eq_some.mp hcurrent)
    exact hblocked
  have h₆ := h₅.step ⟨show CountsTogether s₀ _ (.success _ _) from fun c hc =>
      .inr (.inl (hstays c hc)),
    .success _ r₃ ⟨firstAccount, batch⟩ _ "2024-01-02T00:00:00.000Z" ⟨none, none⟩
      List.mem_cons_self List.mem_cons_self (by simp [routed, OutboxEntry.commandId])
      (toOption_eq_some.mp hr₃)⟩
  refine ⟨_, ?_, ?_, network_neverAhead "ws_1" s₀ _ h₆⟩
  · exact congrArg (fun l => [l]) hstatuses
  · rw [← hid₁]
    exact hqueue

/-- The server refuses two edits of a device because another device has edited the same field,
    and both stay in the queue, blocked. The next edit is sent without them and is based on the
    revision they reached: it is refused as being ahead. -/
theorem network_ahead : ¬ ∀ (s₀ : WorkspaceState) (N : Network),
    (@network asciiHost plainCollation "ws_1" s₀).Reachable N → @NeverAhead asciiHost N := by
  let : Host := asciiHost
  let : Collation := plainCollation
  intro hall
  obtain ⟨e₁, he₁⟩ : ∃ e, e = renameEntry "c1" 0 "Home" "Flat" := ⟨_, rfl⟩
  obtain ⟨e₂, he₂⟩ : ∃ e, e = renameEntry "c2" 1 "Flat" "Loft" := ⟨_, rfl⟩
  obtain ⟨e₃, he₃⟩ : ∃ e, e = renameEntry "c3" 2 "Loft" "Attic" := ⟨_, rfl⟩
  obtain ⟨s₀, hs₀⟩ : ∃ s, s = renamedState := ⟨_, rfl⟩
  have hrun : aheadRun firstState s₀ e₁ e₂ e₃ = some true := by
    rw [he₁, he₂, he₃, hs₀]
    decide +kernel
  have hnew : ["c1", "c2", "c3"].all (fun id => !wasApplied s₀ id) = true := by
    rw [hs₀]
    decide +kernel
  have hrev : firstState.workspace.revision ≤ s₀.workspace.revision := by
    rw [hs₀]
    decide +kernel
  have hid₁ : e₁.commandId = "c1" := by rw [he₁]; rfl
  have hid₂ : e₂.commandId = "c2" := by rw [he₂]; rfl
  have hid₃ : e₃.commandId = "c3" := by rw [he₃]; rfl
  clear he₁ he₂ he₃ hs₀
  simp only [List.all_cons, List.all_nil, Bool.and_true, Bool.and_eq_true,
    Bool.not_eq_true'] at hnew
  obtain ⟨hnew₁, hnew₂, hnew₃⟩ := hnew
  simp only [aheadRun, Option.bind_eq_bind, Option.bind_eq_some_iff, Option.pure_def,
    Option.some.injEq] at hrun
  obtain ⟨r₁, hr₁, r₂, hr₂, ⟨v, batch, i, b⟩, hf, state, hload, r₃, hr₃, r₄, hr₄,
    ⟨v₂, batch₂, i₂, b₂⟩, hf₂, hend⟩ := hrun
  simp only [Bool.and_eq_true, Bool.not_eq_true', List.all_append, List.all_eq_true,
    beq_iff_eq, bne_iff_ne, List.any_eq_true] at hend
  obtain ⟨⟨⟨⟨hb, hb₂⟩, hids⟩, hw, hw₂⟩, t, ht, htid, hahead⟩ := hend
  let free : Network → NetworkAction → Prop := fun _ _ => True
  have h₀ : ((network "ws_1" s₀).restrict free).Reachable (firstNetwork firstState s₀) :=
    ⟨_, [], ⟨⟨rfl, rfl, rfl, rfl, rfl⟩, ⟨rfl, rfl, rfl, rfl, rfl⟩, rfl, hrev⟩, .nil _⟩
  -- two edits are sent, refused, and the response takes effect
  have h₁ := reachable_edit h₀ (fun _ => trivial) rfl List.not_mem_nil
    (unused_of_silent (hid₁ ▸ hnew₁) rfl (fun _ h => absurd h List.not_mem_nil)
      fun _ h => absurd h List.not_mem_nil) hr₁
  have h₂ := reachable_edit h₁ (fun _ => trivial) rfl
    (by show e₂.commandId ∉ [e₁.commandId]; rw [hid₁, hid₂]; decide)
    (unused_of_silent (hid₂ ▸ hnew₂) rfl (fun _ h => absurd h List.not_mem_nil)
      fun _ h => absurd h List.not_mem_nil) hr₂
  obtain ⟨h₃, hbatch⟩ := reachable_flush h₂ (fun _ _ _ _ => trivial) (fun _ _ => trivial) rfl rfl
    hw hf
  have h₄ := h₃.step ⟨trivial, .server _ .answer _ (by simp)
    (.answer _ [] [] _ _ b rfl rfl hbatch hb)⟩
  have h₅ := h₄.step ⟨trivial, .respond _ _ state List.mem_cons_self (toOption_join.mp hload)⟩
  have h₆ := h₅.step ⟨trivial, .success _ r₃ ⟨firstAccount, batch⟩ _
    "2024-01-02T00:00:00.000Z" ⟨none, none⟩ List.mem_cons_self List.mem_cons_self
    (by simp [routed, OutboxEntry.commandId]) (toOption_eq_some.mp hr₃)⟩
  -- the third edit is sent alone
  have h₇ := reachable_edit h₆ (fun _ => trivial) rfl
    (by show e₃.commandId ∉ [e₁.commandId, e₂.commandId]; rw [hid₁, hid₂, hid₃]; decide)
    (unused_of_silent (hid₃ ▸ hnew₃) rfl (fun _ h => absurd h List.not_mem_nil) (by
      intro a ha envelope he
      rw [List.mem_singleton.mp ha] at he
      obtain ⟨e, hin, rfl⟩ := List.mem_map.mp he
      exact hids e hin)) hr₄
  obtain ⟨h₈, hbatch₂⟩ := reachable_flush h₇ (fun _ _ _ _ => trivial) (fun _ _ => trivial) rfl rfl
    hw₂ hf₂
  have h₉ := h₈.step ⟨trivial, .server _ .answer _ (by simp)
    (.answer _ [] [] _ _ b₂ rfl rfl hbatch₂ hb₂)⟩
  have hnot := hall s₀ _ h₉.of_restrict _ (List.mem_append_right _ List.mem_cons_self) t ht
    (by
      rw [htid]
      show e₃.commandId ∈ [e₁.commandId, e₂.commandId, e₃.commandId]
      simp)
  rw [hahead] at hnot
  cases hnot

end Stowplan
