/-
  File:      Stowplan/Server/Sync.lean
  Subject:   THE BATCH LOOP OF `synchronize` (sync-service.ts).

  A batch is applied command by command to the snapshot it was loaded with. A command the
  snapshot records is a duplicate; one that is accepted is applied and the history compacted; one
  that is refused leaves the snapshot as it was. A queue that was edited offline counts its base
  revisions on, so a base ahead of the snapshot by no more than the receipts given is lowered.

  * `syncCommand`, `syncBatch`: the loop;
  * `Turn`, `turnsOf`: what it did with each command;
  * `syncCommand_turn`: a command that was applied was not recorded before, is recorded now, and
    moved the revision on by one; `turnsOf_linked`: each turn starts where the one before ended.
-/
import Stowplan.Lib.Outcome
import Stowplan.Domain.Storage
import Stowplan.Server.Quotas

namespace Stowplan

/-! ## 1. The loop -/

/-- The status of `SyncReceipt`. -/
inductive ReceiptStatus where
  | applied | duplicate | rejected
  deriving DecidableEq

/-- `SyncReceipt`: what became of a command. -/
structure SyncReceipt where
  commandId : String
  conflicts : Option (List SyncConflict) := none
  message : Option String := none
  quota : Option QuotaExceededError := none
  revision : Int
  status : ReceiptStatus

/-- `wasApplied`, `commandWasApplied`. -/
def wasApplied (state : WorkspaceState) (commandId : String) : Bool :=
  state.commandReceipts.contains commandId ||
    (state.activities.any fun activity => activity.commandId = commandId) ||
    state.audit.any fun event => event.id = "audit_" ++ commandId

/-- A snapshot records the same commands after it was read back. -/
theorem Kept.wasApplied {s t : WorkspaceState} (h : Kept s t) (id : String) :
    wasApplied t id = wasApplied s id := by
  have hreceipts : t.commandReceipts.contains id = s.commandReceipts.contains id := by
    rw [h.receipts, Bool.eq_iff_iff, List.contains_iff_mem, List.contains_iff_mem, mem_uniq]
  have hactivities : (t.activities.any fun a => decide (a.commandId = id)) =
      s.activities.any fun a => decide (a.commandId = id) := by
    have hany : ∀ u : WorkspaceState, (u.activities.any fun a => decide (a.commandId = id)) =
        (activityIds u).any fun p => decide (p.2 = id) := by
      intro u
      rw [activityIds, List.any_map]
      rfl
    rw [hany, hany, h.activities]
  unfold Stowplan.wasApplied
  rw [hreceipts, hactivities, h.audit]

/-- The identifier a receipt carries, after `count` receipts. -/
def receiptId (envelope : CommandEnvelope) (count : Nat) : String :=
  if envelope.id = "" then s!"invalid-command-{count + 1}" else envelope.id

/-- What applying a command can throw. -/
inductive SyncError where
  | quota (error : QuotaExceededError)
  | thrown (error : Thrown)

section Batch

variable [Host]

/-- The variables of the loop. -/
structure Batch where
  state : WorkspaceState
  quotaUsage : SnapshotQuota → Nat
  receipts : List SyncReceipt
  applied : Bool

/-- The command with the base revision it is judged by. -/
def rebasedEnvelope (initial : WorkspaceState) (b : Batch) (envelope : CommandEnvelope) :
    CommandEnvelope :=
  let optimisticUpperBound := initial.workspace.revision + b.receipts.length
  if b.state.workspace.revision < envelope.baseRevision &&
      envelope.baseRevision ≤ optimisticUpperBound then
    { envelope with baseRevision := b.state.workspace.revision }
  else envelope

/-- The history records of the command just applied are kept. -/
def compactResult (result : CommandResult) : WorkspaceState :=
  compactWorkspaceHistory result.state snapshotHistoryLimits
    ((result.activity.map (·.id)).toList ++
      (result.audit.map (·.targetActivityIds)).getD [])
    (result.audit.map (·.id)).toList

/-- The body of the `try`. -/
def applyAndCompact (b : Batch) (command : CommandEnvelope) :
    Except SyncError (WorkspaceState × (SnapshotQuota → Nat)) := do
  let result ← (applyCommand b.state command).mapError .thrown
  let nextQuotaUsage ←
    (assertSnapshotWithinQuotas (compactResult result) (some b.quotaUsage)).mapError .quota
  return (compactResult result, nextQuotaUsage)

/-- The receipt of a command that was refused; errors of other kinds are thrown on. -/
def rejection (commandId : String) (revision : Int) : SyncError → Result SyncReceipt
  | .quota e => .ok {
      commandId, message := some e.quota.message, quota := some e, revision, status := .rejected }
  | .thrown (.conflict message conflicts) => .ok {
      commandId, conflicts := some conflicts, message := some message, revision,
      status := .rejected }
  | .thrown (.domain code message) => .ok {
      commandId, message := some (code ++ ": " ++ message), revision, status := .rejected }
  | .thrown (.crash message) => .error (.crash message)

/-- One command of a batch. -/
def syncCommand (initial : WorkspaceState) (b : Batch) (envelope : CommandEnvelope) :
    Result Batch :=
  let commandId := receiptId envelope b.receipts.length
  if wasApplied b.state commandId then
    .ok { b with receipts := b.receipts ++ [{
      commandId, revision := b.state.workspace.revision, status := .duplicate }] }
  else
    match applyAndCompact b (rebasedEnvelope initial b envelope) with
    | .ok (state, quotaUsage) => .ok {
        state
        quotaUsage
        receipts := b.receipts ++ [{
          commandId, revision := state.workspace.revision, status := .applied }]
        applied := true }
    | .error e => do
        let receipt ← rejection commandId b.state.workspace.revision e
        return { b with receipts := b.receipts ++ [receipt] }

/-- The loop over the commands. -/
def syncLoop (initial : WorkspaceState) : Batch → List CommandEnvelope → Result Batch
  | b, [] => .ok b
  | b, envelope :: rest => do
    let b ← syncCommand initial b envelope
    syncLoop initial b rest

/-- A batch before its first command. -/
def startBatch (initial : WorkspaceState) : Batch where
  state := initial
  quotaUsage := snapshotQuotaUsage initial
  receipts := []
  applied := false

/-- The commands of a request, over the state that was loaded. -/
def syncBatch (initial : WorkspaceState) (commands : List CommandEnvelope) : Result Batch :=
  syncLoop initial (startBatch initial) commands

/-! ## 2. Turns -/

/-- What the loop did with one command. -/
structure Turn where
  envelope : CommandEnvelope
  receipt : SyncReceipt
  before : WorkspaceState
  after : WorkspaceState

/-- The turns of a loop that does not throw. -/
def turnsOf (initial : WorkspaceState) : Batch → List CommandEnvelope → List Turn
  | _, [] => []
  | b, envelope :: rest =>
    match syncCommand initial b envelope with
    | .error _ => []
    | .ok b' => match b'.receipts.getLast? with
      | none => []
      | some receipt => ⟨envelope, receipt, b.state, b'.state⟩ :: turnsOf initial b' rest

/-- A command that took effect: not recorded before, accepted, and recorded now. -/
structure TookEffect (t : Turn) : Prop where
  unrecorded : wasApplied t.before t.envelope.id = false
  accepted : ∃ baseRevision r,
    applyCommand t.before { t.envelope with baseRevision } = .ok r ∧ t.after = compactResult r
  recorded : wasApplied t.after t.envelope.id = true
  revision : t.after.workspace.revision = t.before.workspace.revision + 1

/-- What a receipt says of its turn. -/
structure Turn.Faithful (t : Turn) : Prop where
  named : t.envelope.id ≠ "" → t.receipt.commandId = t.envelope.id
  duplicate : t.receipt.status = .duplicate ↔ wasApplied t.before t.receipt.commandId = true
  applied : t.receipt.status = .applied → t.receipt.commandId = t.envelope.id ∧ TookEffect t
  kept : t.receipt.status ≠ .applied → t.after = t.before

end Batch

/-! ## 3. What compaction leaves of the command just applied -/

section Applied

variable [Host]

omit [Host] in
theorem wasApplied_of_activity {s : WorkspaceState} {a : ActivityRecord}
    (h : a ∈ s.activities) : wasApplied s a.commandId = true := by
  have : (s.activities.any fun b => b.commandId = a.commandId) = true :=
    List.any_eq_true.mpr ⟨a, h, by simp⟩
  simp [wasApplied, this]

omit [Host] in
theorem wasApplied_of_audit {s : WorkspaceState} {e : AuditEvent} {id : String}
    (h : e ∈ s.audit) (hid : e.id = "audit_" ++ id) : wasApplied s id = true := by
  have : (s.audit.any fun b => b.id = "audit_" ++ id) = true :=
    List.any_eq_true.mpr ⟨e, h, by simp [hid]⟩
  simp [wasApplied, this]

theorem compactResult_records (r : CommandResult) : SameRecords r.state (compactResult r) :=
  compact_records _ _ _ _

/-- The record of the command just applied outlives the compaction. -/
theorem compactResult_recorded {s : WorkspaceState} {env : CommandEnvelope} {r : CommandResult}
    (h : Logged env s r) : wasApplied (compactResult r) env.id = true := by
  cases h with
  | activity a hr hn hid ha =>
      rw [← hid]
      refine wasApplied_of_activity (compact_activity ?_ ?_ _)
      · rw [ha]
        exact List.mem_append_right _ List.mem_cons_self
      · simp [hr]
  | audit e hr hn hid ha ht he =>
      obtain ⟨a, hin, htarget⟩ := ht
      have hmem : e ∈ r.state.audit := by
        rw [he]
        exact List.mem_append_right _ List.mem_cons_self
      have hkept : ∃ e' ∈ (compactResult r).audit, e'.id = e.id := by
        refine compact_audit hmem ?_ hin ?_ htarget _
        · simp [hr]
        · simp [hr, htarget]
      obtain ⟨e', he', hid'⟩ := hkept
      exact wasApplied_of_audit he' (hid'.trans hid)

omit [Host] in
theorem wasApplied_iff {s : WorkspaceState} {id : String} :
    wasApplied s id = true ↔ id ∈ s.commandReceipts ∨
      (∃ a ∈ s.activities, a.commandId = id) ∨ ∃ e ∈ s.audit, e.id = "audit_" ++ id := by
  simp [wasApplied, or_assoc]

/-- **Compaction records no command that was not recorded.** -/
theorem compactResult_wasApplied {r : CommandResult} {id : String}
    (h : wasApplied (compactResult r) id = true) : wasApplied r.state id = true := by
  let P : WorkspaceState → Prop := fun t => wasApplied t id = true → wasApplied r.state id = true
  have hmoved : ∀ (t : WorkspaceState) (as : List ActivityRecord) (es : List AuditEvent)
      (ids : List (Option String)) (limit : Nat), P t →
      (∀ a ∈ as, a ∈ t.activities) → (∀ e ∈ es, ∃ e' ∈ t.audit, e.id = e'.id) →
      (∀ c, some c ∈ ids → wasApplied t c = true) →
      P (withCommandReceipts { t with activities := as, audit := es } ids limit) := by
    intro t as es ids limit hP has hes hids hu
    refine hP ?_
    rcases wasApplied_iff.mp hu with hr | ⟨a, ha, hid⟩ | ⟨e, he, hid⟩
    · rcases mem_addReceipts (List.mem_of_mem_drop hr) with hr | hr
      · exact wasApplied_iff.mpr (.inl hr)
      · exact hids id hr
    · exact wasApplied_iff.mpr (.inr (.inl ⟨a, has a ha, hid⟩))
    · obtain ⟨e', he', hid'⟩ := hes e he
      exact wasApplied_iff.mpr (.inr (.inr ⟨e', he', hid'.symm.trans hid⟩))
  have hevents : ∀ (t : WorkspaceState) (es : List AuditEvent) (c : String), (∀ e ∈ es, e ∈ t.audit) →
      some c ∈ es.map commandIdForAudit → wasApplied t c = true := by
    intro t es c hes hc
    obtain ⟨e, he, hid⟩ := List.mem_map.mp hc
    exact wasApplied_iff.mpr (.inr (.inr ⟨e, hes e he, commandIdForAudit_some hid⟩))
  refine KeptByCompaction.induction (P := P) ⟨?_, ?_, ?_⟩ (fun h => h) _ h
  · intro t ids hids hP hu
    refine hP (wasApplied_iff.mpr ((wasApplied_iff.mp hu).imp_left fun hr => hids id hr))
  · intro t removed limit _ hP
    unfold withoutActivities
    split
    · exact hP
    · refine hmoved t _ _ _ limit hP (fun a ha => (List.mem_filter.mp ha).1)
        (fun e he => mem_normalizeAudit he) fun c hc => ?_
      rcases List.mem_append.mp hc with hc | hc
      · obtain ⟨a, ha, hid⟩ := List.mem_map.mp hc
        exact wasApplied_iff.mpr (.inr (.inl ⟨a, (List.mem_filter.mp ha).1, Option.some.inj hid⟩))
      · exact hevents t _ c (fun e he => (List.mem_filter.mp he).1) hc
  · intro t removed limit _ hP
    unfold withoutAudits
    split
    · exact hP
    · exact hmoved t _ _ _ limit hP (fun a ha => ha)
        (fun e he => ⟨e, (List.mem_filter.mp he).1, rfl⟩)
        fun c hc => hevents t _ c (fun e he => (List.mem_filter.mp he).1) hc

omit [Host] in
/-- A command that took effect records itself and no other. -/
theorem Logged.wasApplied {s : WorkspaceState} {env : CommandEnvelope} {r : CommandResult}
    (h : Logged env s r) {id : String} (ha : wasApplied r.state id = true) :
    Stowplan.wasApplied s id = true ∨ env.id = id := by
  cases h with
  | activity a _ _ hid hactivities haudit hreceipts =>
      rcases wasApplied_iff.mp ha with hr | ⟨b, hb, hb'⟩ | he
      · rw [hreceipts] at hr
        exact .inl (wasApplied_iff.mpr (.inl hr))
      · rw [hactivities] at hb
        rcases List.mem_append.mp hb with hb | hb
        · exact .inl (wasApplied_iff.mpr (.inr (.inl ⟨b, hb, hb'⟩)))
        · rw [List.mem_singleton.mp hb] at hb'
          exact .inr (hid.symm.trans hb')
      · rw [haudit] at he
        exact .inl (wasApplied_iff.mpr (.inr (.inr he)))
  | audit e _ _ hid hactivities _ haudit hreceipts =>
      rcases wasApplied_iff.mp ha with hr | ⟨b, hb, hb'⟩ | ⟨e', he', hid'⟩
      · rw [hreceipts] at hr
        exact .inl (wasApplied_iff.mpr (.inl hr))
      · -- a replay keeps the commands of the activities
        have hmem : (b.id, b.commandId, b.patches) ∈ historyOf s.activities := by
          rw [← hactivities]
          exact List.mem_map_of_mem hb
        obtain ⟨c, hc, hcb⟩ := List.mem_map.mp hmem
        have hcommand : c.commandId = b.commandId := congrArg (·.2.1) hcb
        exact .inl (wasApplied_iff.mpr (.inr (.inl ⟨c, hc, hcommand.trans hb'⟩)))
      · rw [haudit] at he'
        rcases List.mem_append.mp he' with he' | he'
        · exact .inl (wasApplied_iff.mpr (.inr (.inr ⟨e', he', hid'⟩)))
        · rw [List.mem_singleton.mp he', hid] at hid'
          exact .inr (String.append_right_inj _ |>.mp hid')

/-- A command that took effect records itself and no other. -/
theorem TookEffect.wasApplied {t : Turn} (h : TookEffect t) {id : String}
    (ha : wasApplied t.after id = true) :
    Stowplan.wasApplied t.before id = true ∨ t.envelope.id = id := by
  obtain ⟨base, r, hr, hafter⟩ := h.accepted
  rw [hafter] at ha
  exact (applyCommand_logged hr).2.wasApplied (compactResult_wasApplied ha)

/-- A command without an identifier is never accepted. -/
theorem applyCommand_id {s : WorkspaceState} {env : CommandEnvelope} {r : CommandResult}
    (h : applyCommand s env = .ok r) : env.id ≠ "" := by
  obtain ⟨hcheck, -⟩ := applyCommand_ok h
  simp only [checkEnvelope, validateEnvelopeRuntime, result_bind_ok, refuse_ok,
    Bool.or_eq_false_iff] at hcheck
  obtain ⟨_, ⟨_, ⟨⟨⟨⟨⟨⟨hid, -⟩, -⟩, -⟩, -⟩, -⟩, -⟩, -⟩, -⟩ := hcheck
  exact ne_empty_of_not_blank hid

variable {initial : WorkspaceState} {b b' : Batch} {envelope : CommandEnvelope}

omit [Host] in
theorem rebasedEnvelope_eq (initial : WorkspaceState) (b : Batch) (envelope : CommandEnvelope) :
    ∃ baseRevision, rebasedEnvelope initial b envelope = { envelope with baseRevision } := by
  unfold rebasedEnvelope
  simp only
  split
  · exact ⟨_, rfl⟩
  · exact ⟨envelope.baseRevision, rfl⟩

theorem applyAndCompact_ok {command : CommandEnvelope} {p : WorkspaceState × (SnapshotQuota → Nat)}
    (h : applyAndCompact b command = .ok p) :
    ∃ r, applyCommand b.state command = .ok r ∧ p.1 = compactResult r := by
  unfold applyAndCompact at h
  obtain ⟨r, hr, h⟩ := except_bind_ok.mp h
  obtain ⟨usage, -, h⟩ := except_bind_ok.mp h
  refine ⟨r, mapError_ok.mp hr, ?_⟩
  rw [← Except.ok.inj h]

omit [Host] in
theorem rejection_ok {commandId : String} {revision : Int} {e : SyncError} {receipt : SyncReceipt}
    (h : rejection commandId revision e = .ok receipt) :
    receipt.status = .rejected ∧ receipt.commandId = commandId := by
  rcases e with e | (_ | _ | _)
  all_goals first
    | cases h
      exact ⟨rfl, rfl⟩
    | cases h

/-- **One turn of the loop**: its receipt tells what happened. -/
theorem syncCommand_turn (h : syncCommand initial b envelope = .ok b') :
    ∃ receipt, b'.receipts = b.receipts ++ [receipt] ∧
      (b'.applied = (b.applied || decide (receipt.status = .applied))) ∧
      Turn.Faithful ⟨envelope, receipt, b.state, b'.state⟩ := by
  unfold syncCommand at h
  simp only at h
  split at h
  · rename_i hdup
    rw [Except.ok.injEq] at h
    subst h
    exact ⟨_, rfl, by simp, ⟨fun h => if_neg h, ⟨fun _ => hdup, fun _ => rfl⟩,
      fun h => (by cases h), fun _ => rfl⟩⟩
  · rename_i hnew
    split at h
    · rename_i state usage happly
      rw [Except.ok.injEq] at h
      subst h
      obtain ⟨r, hr, hstate⟩ := applyAndCompact_ok happly
      have hstate : state = compactResult r := hstate
      obtain ⟨base, hbase⟩ := rebasedEnvelope_eq initial b envelope
      rw [hbase] at hr
      have hid : receiptId envelope b.receipts.length = envelope.id :=
        if_neg (applyCommand_id hr)
      obtain ⟨hadvanced, hlogged⟩ := applyCommand_logged hr
      have hkept := compactResult_recorded hlogged
      have hrecorded : wasApplied state envelope.id = true := by
        rw [hstate]
        exact hkept
      have hrevision : state.workspace.revision = b.state.workspace.revision + 1 := by
        rw [hstate, (compactResult_records r).workspace]
        exact hadvanced.revision
      refine ⟨_, rfl, by simp, ⟨fun _ => hid, ⟨fun h => (by cases h), fun h => absurd h hnew⟩,
        fun _ => ⟨hid, ?_, ⟨base, r, hr, hstate⟩, hrecorded, hrevision⟩, fun h => absurd rfl h⟩⟩
      rw [hid] at hnew
      simpa using hnew
    · rename_i e happly
      simp only [result_bind_ok, result_pure_ok] at h
      obtain ⟨receipt, hreceipt, rfl⟩ := h
      obtain ⟨hstatus, hid⟩ := rejection_ok hreceipt
      refine ⟨receipt, rfl, by simp [hstatus], ⟨fun h => hid.trans (if_neg h),
        ⟨fun h => ?_, fun h => ?_⟩, fun h => ?_, fun _ => rfl⟩⟩
      · cases hstatus.symm.trans h
      · rw [hid] at h
        exact absurd h hnew
      · cases hstatus.symm.trans h

/-! ## 4. The turns of a batch -/

/-- Each turn starts where the one before ended. -/
def Linked : WorkspaceState → List Turn → Prop
  | _, [] => True
  | s, t :: ts => t.before = s ∧ Linked t.after ts

/-- Where the turns end. -/
def endOf : WorkspaceState → List Turn → WorkspaceState
  | s, [] => s
  | _, t :: ts => endOf t.after ts

/-- The turns that applied their command. -/
def appliedTurns (ts : List Turn) : List Turn := ts.filter fun t => t.receipt.status = .applied

/-- What the turns of a loop tell of it. -/
structure Told (s : WorkspaceState) (commands : List CommandEnvelope) (b b' : Batch)
    (ts : List Turn) : Prop where
  linked : Linked s ts
  faithful : ∀ t ∈ ts, t.Faithful
  ends : b'.state = endOf s ts
  receipts : b'.receipts = b.receipts ++ ts.map (·.receipt)
  commands : ts.map (·.envelope) = commands
  applied : b'.applied = (b.applied || !(appliedTurns ts).isEmpty)

omit [Host] in
theorem applied_of_isEmpty {p q : Bool} {ts : List Turn} (h : p = (q || !ts.isEmpty)) :
    (p = false → ts = []) ∧ (q = false → p = true → ts ≠ []) := by
  subst h
  cases ts with
  | nil => exact ⟨fun _ => rfl, fun hq hp => by simp [hq] at hp⟩
  | cons t ts => exact ⟨fun hp => by simp at hp, fun _ _ => List.cons_ne_nil t ts⟩

theorem Told.applied_false {s : WorkspaceState} {commands : List CommandEnvelope} {ts : List Turn}
    (h : Told s commands b b' ts) (hb : b'.applied = false) : appliedTurns ts = [] :=
  (applied_of_isEmpty h.applied).1 hb

theorem Told.applied_true {s : WorkspaceState} {commands : List CommandEnvelope} {ts : List Turn}
    (h : Told s commands b b' ts) (hb : b.applied = false) (hb' : b'.applied = true) :
    appliedTurns ts ≠ [] :=
  (applied_of_isEmpty h.applied).2 hb hb'

theorem syncLoop_told {commands : List CommandEnvelope}
    (h : syncLoop initial b commands = .ok b') :
    Told b.state commands b b' (turnsOf initial b commands) := by
  induction commands generalizing b with
  | nil =>
      cases h
      exact ⟨trivial, fun _ h => absurd h List.not_mem_nil, rfl, by simp [turnsOf], rfl,
        by simp [turnsOf, appliedTurns]⟩
  | cons envelope commands ih =>
      simp only [syncLoop, result_bind_ok] at h
      obtain ⟨c, hc, h⟩ := h
      obtain ⟨receipt, hreceipt, happlied, hfaithful⟩ := syncCommand_turn hc
      have hlast : c.receipts.getLast? = some receipt := by rw [hreceipt]; simp
      have ht := ih h
      simp only [turnsOf, hc, hlast]
      refine ⟨⟨rfl, ht.linked⟩, ?_, ht.ends, ?_, ?_, ?_⟩
      · intro t htm
        rcases List.mem_cons.mp htm with rfl | htm
        · exact hfaithful
        · exact ht.faithful t htm
      · rw [ht.receipts, hreceipt]
        simp
      · rw [List.map_cons, ht.commands]
      · rw [ht.applied, happlied]
        by_cases hs : receipt.status = .applied <;> simp [appliedTurns, hs]

/-- **The turns of a batch** tell all of it. -/
theorem syncBatch_told {commands : List CommandEnvelope}
    (h : syncBatch initial commands = .ok b') :
    Told initial commands (startBatch initial) b'
      (turnsOf initial (startBatch initial) commands) :=
  syncLoop_told h

end Applied

end Stowplan
