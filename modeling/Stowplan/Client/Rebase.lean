/-
  File:      Stowplan/Client/Rebase.lean
  Subject:   REBASING THE QUEUE ON THE SNAPSHOT OF A RESPONSE.

  A response takes the entries it acknowledges out of the queue and replays the rest on its
  snapshot. The replay stops at the first command the snapshot refuses, and then nothing is
  acknowledged; beside a blocked entry nothing is replayed, and an entry that no longer applies
  goes on waiting; and a command the snapshot already holds is replayed once more.

  * `Rebased`: what a response should leave of a queue;
  * `Acknowledges`, `applySuccessful_acknowledges`: when a response takes effect;
  * `rebasedOnce`, `reconcileReplica_once`: when the replay is the one that skips what the
    snapshot holds.
-/
import Stowplan.Client.Queue
import Stowplan.Domain.Normalize

namespace Stowplan

open Keyed

section Replay

variable [Host]

/-! ## 1. Replaying a queue -/

theorem applyAll_cons {s t : WorkspaceState} {e : OutboxEntry} {es : List OutboxEntry} :
    applyAll s (e :: es) = .ok t ↔
      ∃ r, applyCommand s e.envelope = .ok r ∧ applyAll r.state es = .ok t :=
  except_bind_ok

/-- The revision counts the commands that were replayed. -/
theorem applyAll_revision {s t : WorkspaceState} {es : List OutboxEntry}
    (h : applyAll s es = .ok t) :
    t.workspace.revision = s.workspace.revision + es.length := by
  induction es generalizing s with
  | nil =>
      rw [← Except.ok.inj h]
      simp
  | cons e es ih =>
      obtain ⟨r, hr, h⟩ := applyAll_cons.mp h
      rw [ih h, (applyCommand_logged hr).1.revision, List.length_cons]
      push_cast
      omega

/-! ## 2. What a response acknowledges -/

/-- The command was sent, and its receipt calls it saved; of two receipts the last one counts. -/
def acknowledged (sent : List OutboxEntry) (receipts : List SyncReceipt) (commandId : String) :
    Bool :=
  (sent.map (·.commandId)).contains commandId && (receiptOf receipts commandId).any (·.saved)

/-- What the user reads of a sent entry that stays: the words of its receipt, or that it has
    none. -/
def reviewText (receipts : List SyncReceipt) (commandId : String) : String :=
  match receiptOf receipts commandId with
  | some receipt =>
    (receipt.message.or (conflictMessages receipt)).getD "Server rejected this change"
  | none => "The server did not acknowledge this change"

/-- The entries that wait and were not part of the batch. -/
def waiting (replica : LocalReplica) (sent : List OutboxEntry) : List OutboxEntry :=
  replica.outbox.filter fun e => e.status = .pending && !(sent.map (·.commandId)).contains e.commandId

/-- The commands are accepted one after another, from the state on. -/
def AcceptsQueue (s : WorkspaceState) : List OutboxEntry → Prop
  | [] => True
  | e :: es => ∃ r, applyCommand s e.envelope = .ok r ∧ AcceptsQueue r.state es

/-- The entries that stay in a queue, before and after a response: a sent one is blocked with the
    words of its receipt; a blocked one stays as it is; of the others, replayed in order, one that
    applies stays as it is, and one that no longer applies is blocked and passed over. -/
inductive Rebased (sent : List OutboxEntry) (receipts : List SyncReceipt) :
    WorkspaceState → List OutboxEntry → List OutboxEntry → Prop
  | nil (s : WorkspaceState) : Rebased sent receipts s [] []
  | refused {s : WorkspaceState} {e : OutboxEntry} {E F : List OutboxEntry}
      (hsent : e.commandId ∈ sent.map (·.commandId)) (hrest : Rebased sent receipts s E F) :
      Rebased sent receipts s (e :: E) (e.block (reviewText receipts e.commandId) :: F)
  | blocked {s : WorkspaceState} {e : OutboxEntry} {E F : List OutboxEntry}
      (hsent : e.commandId ∉ sent.map (·.commandId)) (hstatus : e.status = .blocked)
      (hrest : Rebased sent receipts s E F) : Rebased sent receipts s (e :: E) (e :: F)
  | applies {s : WorkspaceState} {e : OutboxEntry} {E F : List OutboxEntry} {r : CommandResult}
      (hsent : e.commandId ∉ sent.map (·.commandId)) (hstatus : e.status = .pending)
      (hr : applyCommand s e.envelope = .ok r) (hrest : Rebased sent receipts r.state E F) :
      Rebased sent receipts s (e :: E) (e :: F)
  | review {s : WorkspaceState} {e : OutboxEntry} {E F : List OutboxEntry} {x : Thrown}
      (hsent : e.commandId ∉ sent.map (·.commandId)) (hstatus : e.status = .pending)
      (hr : applyCommand s e.envelope = .error x) (text : String)
      (hrest : Rebased sent receipts s E F) : Rebased sent receipts s (e :: E) (e.block text :: F)

/-- The response takes effect: the entries it acknowledges leave the queue, every other one stays
    in order, and one that no longer applies to the snapshot is kept for review. What the response
    tells of the access is taken over after that. -/
def Acknowledges [Collation] (replica : LocalReplica) (sent : List OutboxEntry)
    (serverState : WorkspaceState) (receipts : List SyncReceipt) (syncedAt : String)
    (context : SyncServerContext) : Prop :=
  ∃ reconciled next access,
    reconcileReplica replica sent serverState receipts = .ok reconciled ∧
    Rebased sent receipts (normalizeState serverState)
      (replica.outbox.filter fun e => !acknowledged sent receipts e.commandId)
      reconciled.outbox ∧
    applySuccessfulSyncResponse replica sent serverState receipts syncedAt context = .ok next ∧
    next.authorization = some access ∧
    next.outbox = scopeOutboxForWorkspaceAccess reconciled.outbox
      (normalizeWorkspaceAccessState replica.authorization) access

theorem acceptsQueue_iff {s : WorkspaceState} {es : List OutboxEntry} :
    AcceptsQueue s es ↔ ∃ t, applyAll s es = .ok t := by
  induction es generalizing s with
  | nil => exact iff_of_true trivial ⟨s, rfl⟩
  | cons e es ih =>
      constructor
      · rintro ⟨r, hr, hes⟩
        obtain ⟨t, ht⟩ := ih.mp hes
        exact ⟨t, applyAll_cons.mpr ⟨r, hr, ht⟩⟩
      · rintro ⟨t, ht⟩
        obtain ⟨r, hr, ht⟩ := applyAll_cons.mp ht
        exact ⟨r, hr, ih.mpr ⟨t, ht⟩⟩

/-- The first of two queues that correspond, by what became of it. -/
theorem Rebased.inv {sent : List OutboxEntry} {receipts : List SyncReceipt} {s : WorkspaceState}
    {e f : OutboxEntry} {E F : List OutboxEntry} (h : Rebased sent receipts s (e :: E) (f :: F)) :
    (e.commandId ∈ sent.map (·.commandId) ∧ Rebased sent receipts s E F) ∨
    (e.commandId ∉ sent.map (·.commandId) ∧
      ((e.status = .blocked ∧ Rebased sent receipts s E F) ∨
      (e.status = .pending ∧ ∃ r, applyCommand s e.envelope = .ok r ∧
        Rebased sent receipts r.state E F) ∨
      (e.status = .pending ∧ f.status = .blocked))) := by
  cases h with
  | refused hsent hrest => exact .inl ⟨hsent, hrest⟩
  | blocked hsent hstatus hrest => exact .inr ⟨hsent, .inl ⟨hstatus, hrest⟩⟩
  | applies hsent hstatus hr hrest => exact .inr ⟨hsent, .inr (.inl ⟨hstatus, _, hr, hrest⟩)⟩
  | review hsent hstatus => exact .inr ⟨hsent, .inr (.inr ⟨hstatus, rfl⟩)⟩

omit [Host] in
/-- A sent entry leaves, or stays for its review. -/
theorem remainingEntry_sent {sent : List OutboxEntry} {receipts : List SyncReceipt}
    {e : OutboxEntry} (hsent : e.commandId ∈ sent.map (·.commandId)) :
    remainingEntry (sent.map (·.commandId)) receipts e =
      if acknowledged sent receipts e.commandId then none
      else some (e.block (reviewText receipts e.commandId)) := by
  unfold remainingEntry acknowledged reviewText
  rw [List.contains_iff_mem.mpr hsent]
  cases receiptOf receipts e.commandId with
  | none => rfl
  | some r => cases hr : r.saved <;> simp [hr]

omit [Host] in
/-- Another entry stays as it is. -/
theorem remainingEntry_unsent {sent : List OutboxEntry} (receipts : List SyncReceipt)
    {e : OutboxEntry} (hsent : e.commandId ∉ sent.map (·.commandId)) :
    remainingEntry (sent.map (·.commandId)) receipts e = some e ∧
      acknowledged sent receipts e.commandId = false := by
  have hin : (sent.map (·.commandId)).contains e.commandId = false := by
    rw [← Bool.not_eq_true, List.contains_iff_mem]
    exact hsent
  unfold remainingEntry acknowledged
  rw [hin]
  exact ⟨rfl, rfl⟩

/-- What the code leaves of a queue is what a response should leave of it iff the entries that
    wait are accepted: the code blocks none of them. -/
theorem rebased_remaining (sent : List OutboxEntry) (receipts : List SyncReceipt)
    (s : WorkspaceState) (outbox : List OutboxEntry) :
    Rebased sent receipts s (outbox.filter fun e => !acknowledged sent receipts e.commandId)
        (outbox.filterMap (remainingEntry (sent.map (·.commandId)) receipts)) ↔
      AcceptsQueue s (outbox.filter fun e =>
        e.status = .pending && !(sent.map (·.commandId)).contains e.commandId) := by
  induction outbox generalizing s with
  | nil => exact iff_of_true (.nil s) trivial
  | cons e outbox ih =>
      rw [List.filter_cons, List.filter_cons, List.filterMap_cons]
      by_cases hsent : e.commandId ∈ sent.map (·.commandId)
      · rw [remainingEntry_sent hsent, List.contains_iff_mem.mpr hsent, Bool.not_true,
          Bool.and_false, if_neg Bool.false_ne_true, ← ih s]
        cases hack : acknowledged sent receipts e.commandId with
        | true => rfl
        | false =>
            constructor
            · intro h
              rcases h.inv with ⟨-, hrest⟩ | ⟨hno, -⟩
              · exact hrest
              · exact absurd hsent hno
            · exact .refused hsent
      · obtain ⟨hkept, hack⟩ := remainingEntry_unsent receipts hsent
        rw [hkept, hack, Bool.not_false, if_pos rfl]
        cases hstatus : e.status with
        | blocked =>
            rw [if_neg (by simp), ← ih s]
            constructor
            · intro h
              rcases h.inv with ⟨hin, -⟩ | ⟨-, ⟨-, hrest⟩ | ⟨hpending, -⟩ | ⟨hpending, -⟩⟩
              · exact absurd hin hsent
              · exact hrest
              · exact absurd (hstatus.symm.trans hpending) (by decide)
              · exact absurd (hstatus.symm.trans hpending) (by decide)
            · exact .blocked hsent hstatus
        | pending =>
            rw [if_pos (by simpa using hsent)]
            constructor
            · intro h
              rcases h.inv with ⟨hin, -⟩ | ⟨-, ⟨hblocked, -⟩ | ⟨-, r, hr, hrest⟩ | ⟨-, hblocked⟩⟩
              · exact absurd hin hsent
              · exact absurd (hstatus.symm.trans hblocked) (by decide)
              · exact ⟨r, hr, (ih _).mp hrest⟩
              · exact absurd (hstatus.symm.trans hblocked) (by decide)
            · rintro ⟨r, hr, hrest⟩
              exact .applies hsent hstatus hr ((ih _).mpr hrest)

omit [Host] in
/-- A replay without a blocked entry replays what waits. -/
theorem remaining_waiting {replica : LocalReplica} {sent : List OutboxEntry}
    {receipts : List SyncReceipt}
    (h : ∀ e ∈ remaining replica sent receipts, e.status ≠ .blocked) :
    remaining replica sent receipts = waiting replica sent := by
  unfold remaining waiting at *
  revert h
  induction replica.outbox with
  | nil => exact fun _ => rfl
  | cons e outbox ih =>
      intro h
      rw [List.filterMap_cons] at h ⊢
      rw [List.filter_cons]
      by_cases hsent : e.commandId ∈ sent.map (·.commandId)
      · rw [remainingEntry_sent hsent] at h ⊢
        rw [List.contains_iff_mem.mpr hsent, Bool.not_true, Bool.and_false,
          if_neg Bool.false_ne_true]
        cases hack : acknowledged sent receipts e.commandId with
        | true =>
            rw [hack] at h
            exact ih h
        | false =>
            rw [hack] at h
            exact absurd rfl (h _ List.mem_cons_self)
      · rw [(remainingEntry_unsent receipts hsent).1] at h ⊢
        have hpending : e.status = .pending := by
          cases hstatus : e.status with
          | pending => rfl
          | blocked => exact absurd hstatus (h e List.mem_cons_self)
        rw [if_pos (by simpa [hpending] using hsent)]
        exact congrArg _ (ih fun f hf => h f (List.mem_cons_of_mem _ hf))

/-- A response that is not set aside is taken over where the entries that wait are accepted. -/
theorem reconcileReplica_accepts {latest : LocalReplica} {sent : List OutboxEntry}
    {serverState : WorkspaceState} {receipts : List SyncReceipt}
    (hs : setAside latest sent serverState = false)
    (h : AcceptsQueue (normalizeState serverState) (waiting latest sent)) :
    ∃ next, reconcileReplica latest sent serverState receipts = .ok next := by
  have hstate : ∃ state, rebasedState latest.state (normalizeState serverState)
      (remaining latest sent receipts) = .ok state := by
    by_cases hblocked : ∃ e ∈ remaining latest sent receipts, e.status = .blocked
    · exact ⟨_, rebasedState_ok.mpr (.inl ⟨hblocked, rfl⟩)⟩
    · have hnone : ∀ e ∈ remaining latest sent receipts, e.status ≠ .blocked :=
        fun e he hb => hblocked ⟨e, he, hb⟩
      obtain ⟨state, happly⟩ := acceptsQueue_iff.mp h
      rw [← remaining_waiting hnone] at happly
      exact ⟨state, rebasedState_ok.mpr (.inr ⟨hnone, happly⟩)⟩
  obtain ⟨state, hstate⟩ := hstate
  exact ⟨_, reconcileReplica_ok.mpr (.inr ⟨hs, _, state, normalized_eq _, hstate, rfl⟩)⟩

/-- **When a response takes effect.** A response about an entry of the queue, whose snapshot is
    not older than the confirmed revision, takes effect iff the snapshot accepts the entries that
    wait and were not sent, one after another. -/
theorem applySuccessful_acknowledges [Collation] (replica : LocalReplica)
    (sent : List OutboxEntry) (serverState : WorkspaceState) (receipts : List SyncReceipt)
    (syncedAt : String) (context : SyncServerContext)
    (hin : ∃ e ∈ replica.outbox, e.commandId ∈ sent.map (·.commandId))
    (hrev : confirmedLocalRevision replica ≤ serverState.workspace.revision) :
    Acknowledges replica sent serverState receipts syncedAt context ↔
      AcceptsQueue (normalizeState serverState) (waiting replica sent) := by
  have hs : setAside replica sent serverState = false := by
    obtain ⟨e, he, hid⟩ := hin
    have hany : (replica.outbox.any fun entry =>
        (sent.map (·.commandId)).contains entry.commandId) = true :=
      List.any_eq_true.mpr ⟨e, he, List.contains_iff_mem.mpr hid⟩
    unfold setAside
    rw [hany, decide_eq_false (by omega)]
    simp
  -- the queue of a replica that is returned
  have hqueue : ∀ reconciled, reconcileReplica replica sent serverState receipts =
      .ok reconciled → reconciled.outbox = remaining replica sent receipts ∧
        reconciled.authorization = replica.authorization := by
    intro reconciled hr
    rcases reconcileReplica_ok.mp hr with ⟨haside, -⟩ | ⟨-, t, state, -, -, rfl⟩
    · exact absurd (hs.symm.trans haside) Bool.false_ne_true
    · exact ⟨rfl, rfl⟩
  constructor
  · rintro ⟨reconciled, next, access, hr, hrebased, -⟩
    rw [(hqueue reconciled hr).1] at hrebased
    exact (rebased_remaining sent receipts _ replica.outbox).mp hrebased
  · intro h
    obtain ⟨reconciled, hr⟩ := reconcileReplica_accepts hs h
    obtain ⟨houtbox, hauthorization⟩ := hqueue reconciled hr
    refine ⟨reconciled, _, _, hr, ?_, except_bind_ok.mpr ⟨reconciled, hr, rfl⟩, rfl, ?_⟩
    · rw [houtbox]
      exact (rebased_remaining sent receipts _ replica.outbox).mpr h
    · rw [← hauthorization]
      rfl

end Replay

/-! ## 3. A response that stops -/

/-- An entry that waits. -/
def pendingEntry (envelope : CommandEnvelope) : OutboxEntry where
  accountId := .undefined
  envelope
  status := .pending

/-- An edit of the name, as a device makes it that sees the expected one. -/
def renameEntry (id : String) (baseRevision : Int) (expected name : String) : OutboxEntry :=
  pendingEntry { firstEnvelope id (.workspaceRename name) with
    baseRevision
    expectations := [⟨"ws_1", "name", .workspace, .str expected⟩] }

/-- A replica of the first workspace. -/
def replicaOf (state : WorkspaceState) (outbox : List OutboxEntry) : LocalReplica where
  authorization := none
  lastSyncAttemptAt := none
  lastSyncError := none
  lastSyncedAt := none
  outbox
  serverSummary := none
  state
  updatedAt := "2024-01-02T00:00:00.000Z"

/-- The receipt of a command that was applied at a revision. -/
def appliedReceipt (commandId : String) (revision : Int) : SyncReceipt where
  commandId
  revision
  status := .applied

/-- The first workspace after commands it accepts. -/
def stateAfter [Host] (entries : List OutboxEntry) : WorkspaceState :=
  (applyAll firstState entries).toOption.getD firstState

/-- A device renames twice and sends the first edit. -/
def twoRenames : List OutboxEntry :=
  [renameEntry "c1" 0 "Home" "Flat", renameEntry "c2" 1 "Flat" "Loft"]

/-- Between the two, another device renames. -/
def crossedRenames : List OutboxEntry :=
  [renameEntry "c1" 0 "Home" "Flat", renameEntry "c3" 1 "Flat" "Elsewhere"]

/-- The response to the first of two edits takes effect where nobody else edited. -/
theorem applySuccessful_acknowledges_first :
    @Acknowledges asciiHost plainCollation
      (replicaOf (@stateAfter asciiHost twoRenames) twoRenames) (twoRenames.take 1)
      (@stateAfter asciiHost (twoRenames.take 1)) [appliedReceipt "c1" 1]
      "2024-01-02T00:00:00.000Z" ⟨none, none⟩ := by
  let : Host := asciiHost
  let : Collation := plainCollation
  refine (applySuccessful_acknowledges _ _ _ _ _ _
    ⟨renameEntry "c1" 0 "Home" "Flat", List.mem_cons_self, List.mem_cons_self⟩
    (by decide +kernel)).mpr (acceptsQueue_iff.mpr (exists_of_isOk ?_))
  decide +kernel

/-- The response to the first of two edits throws where another device has renamed as well: the
    second edit no longer applies, and the first one stays in the queue. -/
theorem applySuccessful_stops : ¬ ∀ (replica : LocalReplica) (sent : List OutboxEntry)
    (serverState : WorkspaceState) (receipts : List SyncReceipt) (syncedAt : String)
    (context : SyncServerContext),
    (∃ e ∈ replica.outbox, e.commandId ∈ sent.map (·.commandId)) →
    confirmedLocalRevision replica ≤ serverState.workspace.revision →
    @validateImportSnapshot asciiHost (encode serverState) = .ok [] →
    @Acknowledges asciiHost plainCollation replica sent serverState receipts syncedAt context := by
  let : Host := asciiHost
  let : Collation := plainCollation
  intro hall
  have hvalid : (validateImportSnapshot (encode (stateAfter crossedRenames))).toOption =
      some [] := by
    decide +kernel
  have hack := hall (replicaOf (stateAfter twoRenames) twoRenames) (twoRenames.take 1)
    (stateAfter crossedRenames) [appliedReceipt "c1" 1] "2024-01-02T00:00:00.000Z" ⟨none, none⟩
    ⟨renameEntry "c1" 0 "Home" "Flat", List.mem_cons_self, List.mem_cons_self⟩
    (by decide +kernel) (toOption_eq_some.mp hvalid)
  obtain ⟨reconciled, next, access, hnext, -⟩ := hack
  have hrun : (reconcileReplica (replicaOf (stateAfter twoRenames) twoRenames)
      (twoRenames.take 1) (stateAfter crossedRenames) [appliedReceipt "c1" 1]).isOk = false := by
    decide +kernel
  rw [hnext] at hrun
  cases hrun

/-! ## 4. Commands the snapshot already holds -/

section Recorded

variable [Host]

/-- The state after a response, where the replay skips the commands the snapshot records, as the
    server itself does. -/
def rebasedOnce (latest serverNormalized : WorkspaceState) (outbox : List OutboxEntry) :
    Result WorkspaceState :=
  if outbox.any fun entry => entry.status = .blocked then .ok latest
  else applyAll serverNormalized
    (outbox.filter fun entry => !wasApplied serverNormalized entry.commandId)

/-- The state `reconcileReplica` computes is the one where each recorded command counts once. -/
def RebasesOnce (latest : LocalReplica) (sent : List OutboxEntry) (serverState : WorkspaceState)
    (receipts : List SyncReceipt) : Prop :=
  ∀ state, (∃ next, reconcileReplica latest sent serverState receipts = .ok next ∧
      next.state = state) ↔
    if setAside latest sent serverState then state = latest.state
    else rebasedOnce latest.state (normalizeState serverState)
      (remaining latest sent receipts) = .ok state

/-- Skipping commands changes what a replay reaches, as the revision counts them. -/
theorem applyAll_filter {s t : WorkspaceState} {es : List OutboxEntry} {p : OutboxEntry → Bool}
    (h : applyAll s es = .ok t) (hp : applyAll s (es.filter p) = .ok t) : es.filter p = es := by
  have h1 := applyAll_revision h
  have h2 := applyAll_revision hp
  exact (List.filter_sublist).eq_of_length (by omega)

/-- **When rebasing counts each recorded command once**: the response is set aside, an entry that
    stays is blocked, the snapshot records none of the entries that stay, or the replay is refused
    with and without the recorded ones. -/
theorem reconcileReplica_once (latest : LocalReplica) (sent : List OutboxEntry)
    (serverState : WorkspaceState) (receipts : List SyncReceipt) :
    RebasesOnce latest sent serverState receipts ↔
      setAside latest sent serverState = true ∨
      (∃ e ∈ remaining latest sent receipts, e.status = .blocked) ∨
      (∀ e ∈ remaining latest sent receipts, wasApplied serverState e.commandId = false) ∨
      ∀ state, applyAll (normalizeState serverState) (remaining latest sent receipts) ≠
          .ok state ∧
        applyAll (normalizeState serverState) ((remaining latest sent receipts).filter
          fun e => !wasApplied serverState e.commandId) ≠ .ok state := by
  have hrecorded : ∀ id, wasApplied (normalizeState serverState) id = wasApplied serverState id :=
    (normalized_kept (normalized_eq serverState)).wasApplied
  generalize hrest : remaining latest sent receipts = rest
  cases hs : setAside latest sent serverState with
  | true =>
      refine iff_of_true (fun state => ?_) (.inl rfl)
      rw [if_pos hs]
      constructor
      · rintro ⟨next, h, rfl⟩
        rcases reconcileReplica_ok.mp h with ⟨-, rfl⟩ | ⟨hno, -⟩
        · rfl
        · exact absurd (hs.symm.trans hno) Bool.noConfusion
      · rintro rfl
        exact ⟨latest, reconcileReplica_ok.mpr (.inl ⟨hs, rfl⟩), rfl⟩
  | false =>
      -- what is computed is the replay of all entries that stay
      have hcode : ∀ state, (∃ next, reconcileReplica latest sent serverState receipts = .ok next ∧
          next.state = state) ↔
          rebasedState latest.state (normalizeState serverState) rest = .ok state := by
        intro state
        constructor
        · rintro ⟨next, h, rfl⟩
          rcases reconcileReplica_ok.mp h with ⟨haside, -⟩ | ⟨-, t, state, ht, hstate, rfl⟩
          · exact absurd (hs.symm.trans haside) Bool.noConfusion
          · rw [normalized_eq, Option.some.injEq] at ht
            rw [ht, ← hrest]
            exact hstate
        · intro h
          rw [← hrest] at h
          exact ⟨_, reconcileReplica_ok.mpr (.inr ⟨hs, _, state, normalized_eq _, h, rfl⟩), rfl⟩
      unfold RebasesOnce
      simp only [hcode, hs, Bool.false_eq_true, if_false, false_or, hrest]
      by_cases hblocked : ∃ e ∈ rest, e.status = .blocked
      · have hany : (rest.any fun e => decide (e.status = .blocked)) = true := by
          simpa using hblocked
        refine iff_of_true (fun state => ?_) (.inl hblocked)
        rw [rebasedState, rebasedOnce, if_pos hany, if_pos hany]
      · have hany : ¬ (rest.any fun e => decide (e.status = .blocked)) = true := by
          simpa using hblocked
        simp only [rebasedState, rebasedOnce, if_neg hany, hblocked, false_or, hrecorded]
        constructor
        · intro h
          by_cases hall : ∃ state, applyAll (normalizeState serverState) rest = .ok state
          · obtain ⟨state, hall⟩ := hall
            have hkept := applyAll_filter hall ((h state).mp hall)
            exact .inl fun e he => by simpa using List.filter_eq_self.mp hkept e he
          · exact .inr fun state => ⟨fun hok => hall ⟨state, hok⟩,
              fun hok => hall ⟨state, (h state).mpr hok⟩⟩
        · rintro (hnone | hrefused) state
          · rw [List.filter_eq_self.mpr fun e he => by rw [hnone e he]; rfl]
          · exact iff_of_false (hrefused state).1 (hrefused state).2

end Recorded

/-- Two edits the server has confirmed, and an undo of the last one, which waits. -/
def undoEntry : OutboxEntry :=
  pendingEntry { firstEnvelope "c3" (.historyBatchUndo 1) with baseRevision := 2 }

/-- A snapshot that records the undo arrives while the undo still waits: the replay undoes the
    first edit as well. -/
theorem reconcileReplica_twice : ¬ ∀ (latest : LocalReplica) (sent : List OutboxEntry)
    (serverState : WorkspaceState) (receipts : List SyncReceipt),
    @validateImportSnapshot asciiHost (encode serverState) = .ok [] →
    @RebasesOnce asciiHost latest sent serverState receipts := by
  let : Host := asciiHost
  intro hall
  have hvalid : (validateImportSnapshot (encode (stateAfter (twoRenames ++ [undoEntry])))).toOption =
      some [] := by
    decide +kernel
  obtain ⟨server, hserver⟩ : ∃ server, server = stateAfter (twoRenames ++ [undoEntry]) := ⟨_, rfl⟩
  rw [← hserver] at hvalid
  have honce := hall (replicaOf server [undoEntry]) [] server [] (toOption_eq_some.mp hvalid)
  have hrun : (reconcileReplica (replicaOf server [undoEntry]) [] server []).toOption.any
      (fun next => next.state.workspace.name == "Home") = true := by
    rw [hserver]
    decide +kernel
  have hfresh : setAside (replicaOf server [undoEntry]) [] server = false := by
    rw [hserver]
    decide +kernel
  have hskip : (rebasedOnce server (normalizeState server)
      (remaining (replicaOf server [undoEntry]) [] [])).toOption.all
        (fun state => state.workspace.name == "Flat") = true := by
    rw [hserver]
    decide +kernel
  cases hnext : reconcileReplica (replicaOf server [undoEntry]) [] server [] with
  | error e => rw [hnext] at hrun; cases hrun
  | ok next =>
      have hstate := (honce next.state).mp ⟨next, hnext, rfl⟩
      rw [hfresh, if_neg Bool.false_ne_true] at hstate
      rw [hnext] at hrun
      have hstate : rebasedOnce server (normalizeState server)
          (remaining (replicaOf server [undoEntry]) [] []) = .ok next.state := hstate
      rw [hstate] at hskip
      have hhome : next.state.workspace.name = "Home" := by
        simpa [Except.toOption] using hrun
      have hflat : next.state.workspace.name = "Flat" := by
        simpa [Except.toOption] using hskip
      exact absurd (hhome.symm.trans hflat) (by decide)

end Stowplan
