/-
  File:      Stowplan/Server/Bounded.lean
  Subject:   QUOTAS OVER BATCHES (sync-service.ts, quotas.ts): no batch stores a snapshot that
  exceeds a limit by more than the one it was loaded with.

  The loop of `synchronize` for an arbitrary table of limits; at `SnapshotQuota.limit` it is the
  one of Sync.lean. Usage is measured when a command was applied and the history compacted, and
  compared with the usage before that command, which the loop carries along.

  * `Bounded`: the invariant of the loop, that the usage carried along is that of the state and no
    counter is above both its limit and its first value;
  * `syncLoopWithin_bounded`: every prefix of a batch keeps it;
  * `syncCommandWithin_refuses`: a command whose result would break it is refused;
  * `Compacts.settled`: what the server stored is read back as it is.
-/
import Stowplan.Domain.Stored
import Stowplan.Server.ExactlyOnce
import Stowplan.Server.Compaction

namespace Stowplan

/-! ## 1. The loop for a table of limits -/

/-- A table of limits, in the place of `API_QUOTAS`. -/
abbrev QuotaLimits : Type := SnapshotQuota → Nat

namespace QuotaLimits

variable (limits : QuotaLimits)

/-- A quota is exceeded, and by more than before. -/
def exceeds (usage : SnapshotQuota → Nat) (previous : Option (SnapshotQuota → Nat))
    (quota : SnapshotQuota) : Bool :=
  decide (limits quota < usage quota) &&
    match previous with
    | none => true
    | some previous => decide (previous quota < usage quota)

/-- `assertSnapshotWithinQuotas` for these limits. -/
def assertWithin [Host] (state : WorkspaceState) (previousUsage : Option (SnapshotQuota → Nat)) :
    Except QuotaExceededError (SnapshotQuota → Nat) :=
  let usage := snapshotQuotaUsage state
  match snapshotQuotaOrder.find? (limits.exceeds usage previousUsage) with
  | some quota => .error ⟨quota, usage quota⟩
  | none => .ok usage

/-- The limits of the history among them. -/
def history : HistoryRetentionLimits where
  activities := limits .activitiesPerSnapshot
  activityPatches := limits .activityPatchesPerSnapshot
  auditEvents := limits .auditEventsPerSnapshot
  commandReceipts := limits .commandReceiptsPerSnapshot
  serializedBytes := limits .storedSnapshotBytes

variable [Host]

/-- `compactResult` for these limits: what the command was about stays. -/
def compactResult (result : CommandResult) : WorkspaceState :=
  compactWorkspaceHistory result.state limits.history
    ((result.activity.map (·.id)).toList ++
      (result.audit.map (·.targetActivityIds)).getD [])
    (result.audit.map (·.id)).toList

/-- `applyAndCompact` for these limits. -/
def applyAndCompact (b : Batch) (command : CommandEnvelope) :
    Except SyncError (WorkspaceState × (SnapshotQuota → Nat)) := do
  let result ← (applyCommand b.state command).mapError .thrown
  let nextQuotaUsage ←
    (limits.assertWithin (limits.compactResult result) (some b.quotaUsage)).mapError .quota
  return (limits.compactResult result, nextQuotaUsage)

/-- One command of a batch for these limits. -/
def syncCommand (initial : WorkspaceState) (b : Batch) (envelope : CommandEnvelope) :
    Result Batch :=
  let commandId := receiptId envelope b.receipts.length
  if wasApplied b.state commandId then
    .ok { b with receipts := b.receipts ++ [{
      commandId, revision := b.state.workspace.revision, status := .duplicate }] }
  else
    match limits.applyAndCompact b (rebasedEnvelope initial b envelope) with
    | .ok (state, quotaUsage) => .ok {
        state
        quotaUsage
        receipts := b.receipts ++ [{
          commandId, revision := state.workspace.revision, status := .applied }]
        applied := true }
    | .error e => do
        let receipt ← rejection commandId b.state.workspace.revision e
        return { b with receipts := b.receipts ++ [receipt] }

/-- The commands of a batch one after another. -/
def syncLoop (initial : WorkspaceState) : Batch → List CommandEnvelope → Result Batch
  | b, [] => .ok b
  | b, envelope :: rest => do
    let b ← limits.syncCommand initial b envelope
    syncLoop initial b rest

/-- A batch for these limits. -/
def syncBatch (initial : WorkspaceState) (commands : List CommandEnvelope) : Result Batch :=
  limits.syncLoop initial (startBatch initial) commands

end QuotaLimits

section Limits

variable [Host]

omit [Host] in
theorem exceeds_limit : QuotaLimits.exceeds SnapshotQuota.limit = exceeds := rfl

theorem assertWithin_limit (state : WorkspaceState)
    (previous : Option (SnapshotQuota → Nat)) :
    QuotaLimits.assertWithin SnapshotQuota.limit state previous =
      assertSnapshotWithinQuotas state previous := by
  unfold QuotaLimits.assertWithin assertSnapshotWithinQuotas
  exact exceeds_limit ▸ rfl

theorem compactResult_limit (result : CommandResult) :
    QuotaLimits.compactResult SnapshotQuota.limit result = compactResult result := rfl

theorem applyAndCompact_limit (b : Batch) (command : CommandEnvelope) :
    QuotaLimits.applyAndCompact SnapshotQuota.limit b command = applyAndCompact b command := by
  unfold QuotaLimits.applyAndCompact applyAndCompact
  simp only [assertWithin_limit, compactResult_limit]

theorem syncCommand_limit (initial : WorkspaceState) (b : Batch) (envelope : CommandEnvelope) :
    QuotaLimits.syncCommand SnapshotQuota.limit initial b envelope =
      syncCommand initial b envelope := by
  unfold QuotaLimits.syncCommand syncCommand
  exact applyAndCompact_limit b (rebasedEnvelope initial b envelope) ▸ rfl

/-- At the limits of the code the loop is the code's. -/
theorem syncLoop_limit (initial : WorkspaceState) (b : Batch) (commands : List CommandEnvelope) :
    QuotaLimits.syncLoop SnapshotQuota.limit initial b commands = syncLoop initial b commands := by
  induction commands generalizing b with
  | nil => rfl
  | cons envelope commands ih =>
      show (do
        let c ← QuotaLimits.syncCommand SnapshotQuota.limit initial b envelope
        QuotaLimits.syncLoop SnapshotQuota.limit initial c commands) = do
        let c ← syncCommand initial b envelope
        syncLoop initial c commands
      rw [syncCommand_limit]
      exact congrArg (syncCommand initial b envelope >>= ·) (funext ih)

theorem syncBatch_limit (initial : WorkspaceState) (commands : List CommandEnvelope) :
    QuotaLimits.syncBatch SnapshotQuota.limit initial commands = syncBatch initial commands :=
  syncLoop_limit initial _ commands

end Limits

/-! ## 2. What the check says -/

section Check

variable [Host] {limits : QuotaLimits}

omit [Host] in
theorem mem_snapshotQuotaOrder (quota : SnapshotQuota) : quota ∈ snapshotQuotaOrder := by
  cases quota <;> decide

omit [Host] in
theorem exceeds_iff {usage previous : SnapshotQuota → Nat} {quota : SnapshotQuota} :
    limits.exceeds usage (some previous) quota = true ↔
      max (limits quota) (previous quota) < usage quota := by
  unfold QuotaLimits.exceeds
  rw [Bool.and_eq_true, decide_eq_true_eq, decide_eq_true_eq, max_lt_iff]

/-- The check passes where no counter grows beyond its limit. -/
theorem assertWithin_ok {state : WorkspaceState} {previous usage : SnapshotQuota → Nat} :
    limits.assertWithin state (some previous) = .ok usage ↔
      usage = snapshotQuotaUsage state ∧
        ∀ quota, snapshotQuotaUsage state quota ≤ max (limits quota) (previous quota) := by
  unfold QuotaLimits.assertWithin
  dsimp only
  cases hfind : snapshotQuotaOrder.find?
      (limits.exceeds (snapshotQuotaUsage state) (some previous)) with
  | some quota =>
      refine ⟨fun h => (nomatch h), fun h => ?_⟩
      have hexceeds := exceeds_iff.mp (List.find?_some hfind)
      exact absurd (h.2 quota) (Nat.not_le.mpr hexceeds)
  | none =>
      constructor
      · intro h
        cases h
        refine ⟨rfl, fun quota => Nat.not_lt.mp fun hlt => ?_⟩
        exact List.find?_eq_none.mp hfind quota (mem_snapshotQuotaOrder quota)
          (exceeds_iff.mpr hlt)
      · rintro ⟨rfl, -⟩
        rfl

/-- Otherwise it names a counter that does. -/
theorem assertWithin_error {state : WorkspaceState} {previous : SnapshotQuota → Nat}
    {quota : SnapshotQuota}
    (h : max (limits quota) (previous quota) < snapshotQuotaUsage state quota) :
    ∃ e : QuotaExceededError, limits.assertWithin state (some previous) = .error e ∧
      e.actual = snapshotQuotaUsage state e.quota ∧
      max (limits e.quota) (previous e.quota) < e.actual := by
  cases hassert : limits.assertWithin state (some previous) with
  | ok usage =>
      exact absurd ((assertWithin_ok.mp hassert).2 quota) (Nat.not_le.mpr h)
  | error e =>
      refine ⟨e, rfl, ?_⟩
      unfold QuotaLimits.assertWithin at hassert
      dsimp only at hassert
      split at hassert
      · rename_i found hfind
        cases hassert
        exact ⟨rfl, exceeds_iff.mp (List.find?_some hfind)⟩
      · cases hassert

end Check

/-! ## 3. The invariant of the loop -/

section Loop

variable [Host] {limits : QuotaLimits} {initial : WorkspaceState} {b b' : Batch}
  {envelope : CommandEnvelope}

/-- No counter is above both its limit and its first value, and the loop knows the counters. -/
structure Bounded (limits : QuotaLimits) (initial : WorkspaceState) (b : Batch) : Prop where
  measured : b.quotaUsage = snapshotQuotaUsage b.state
  bounded : ∀ quota, snapshotQuotaUsage b.state quota ≤
    max (limits quota) (snapshotQuotaUsage initial quota)

theorem startBatch_bounded (limits : QuotaLimits) (initial : WorkspaceState) :
    Bounded limits initial (startBatch initial) :=
  ⟨rfl, fun _ => Nat.le_max_right _ _⟩

/-- A result that exceeds the bound is above the limit and the usage so far. -/
theorem Bounded.exceeded (h : Bounded limits initial b) {usage : Nat} {quota : SnapshotQuota}
    (hover : max (limits quota) (snapshotQuotaUsage initial quota) < usage) :
    max (limits quota) (b.quotaUsage quota) < usage := by
  have hbounded := h.bounded quota
  rw [h.measured]
  omega

theorem applyAndCompactWithin_ok {command : CommandEnvelope}
    {p : WorkspaceState × (SnapshotQuota → Nat)}
    (h : limits.applyAndCompact b command = .ok p) :
    ∃ r, applyCommand b.state command = .ok r ∧ p.1 = limits.compactResult r ∧
      limits.assertWithin p.1 (some b.quotaUsage) = .ok p.2 := by
  unfold QuotaLimits.applyAndCompact at h
  obtain ⟨r, hr, h⟩ := except_bind_ok.mp h
  obtain ⟨usage, husage, h⟩ := except_bind_ok.mp h
  cases Except.ok.inj h
  exact ⟨r, mapError_ok.mp hr, rfl, mapError_ok.mp husage⟩

/-- **One command keeps the bound.** -/
theorem syncCommandWithin_bounded (h : Bounded limits initial b)
    (hc : limits.syncCommand initial b envelope = .ok b') : Bounded limits initial b' := by
  unfold QuotaLimits.syncCommand at hc
  dsimp only at hc
  split at hc
  · cases hc
    exact ⟨h.measured, h.bounded⟩
  · split at hc
    · rename_i state usage happly
      cases hc
      obtain ⟨_, -, -, hassert⟩ := applyAndCompactWithin_ok happly
      obtain ⟨husage, hwithin⟩ := assertWithin_ok.mp hassert
      refine ⟨husage, fun quota => ?_⟩
      have hbefore := h.bounded quota
      have hafter := hwithin quota
      rw [h.measured] at hafter
      exact hafter.trans (max_le (Nat.le_max_left _ _) hbefore)
    · simp only [result_bind_ok, result_pure_ok] at hc
      obtain ⟨receipt, -, rfl⟩ := hc
      exact ⟨h.measured, h.bounded⟩

/-- **Every batch keeps the bound.** -/
theorem syncLoopWithin_bounded {commands : List CommandEnvelope} (h : Bounded limits initial b)
    (hc : limits.syncLoop initial b commands = .ok b') : Bounded limits initial b' := by
  induction commands generalizing b with
  | nil =>
      cases hc
      exact h
  | cons envelope commands ih =>
      unfold QuotaLimits.syncLoop at hc
      obtain ⟨c, hcommand, hc⟩ := result_bind_ok.mp hc
      exact ih (syncCommandWithin_bounded h hcommand) hc

/-- The loop over a batch and one command more. -/
theorem syncLoopWithin_append {commands : List CommandEnvelope} {c : Batch}
    (hc : limits.syncLoop initial b commands = .ok b')
    (hlast : limits.syncCommand initial b' envelope = .ok c) :
    limits.syncLoop initial b (commands ++ [envelope]) = .ok c := by
  induction commands generalizing b with
  | nil =>
      cases hc
      show (limits.syncCommand initial b' envelope >>= fun d => limits.syncLoop initial d []) = _
      rw [hlast]
      rfl
  | cons first commands ih =>
      unfold QuotaLimits.syncLoop at hc
      obtain ⟨d, hd, hc⟩ := result_bind_ok.mp hc
      show (limits.syncCommand initial b first >>= fun d =>
        limits.syncLoop initial d (commands ++ [envelope])) = _
      rw [hd]
      exact ih hc

/-- **A command whose result would break the bound is refused**, and the batch goes on with the
    state as it was. -/
theorem syncCommandWithin_refuses {r : CommandResult} {quota : SnapshotQuota}
    (h : Bounded limits initial b)
    (hnew : wasApplied b.state (receiptId envelope b.receipts.length) = false)
    (hr : applyCommand b.state (rebasedEnvelope initial b envelope) = .ok r)
    (hover : max (limits quota) (snapshotQuotaUsage initial quota) <
      snapshotQuotaUsage (limits.compactResult r) quota) :
    ∃ e : QuotaExceededError, limits.syncCommand initial b envelope = .ok { b with
      receipts := b.receipts ++ [{
        commandId := receiptId envelope b.receipts.length
        message := some e.quota.message
        quota := some e
        revision := b.state.workspace.revision
        status := .rejected }] } ∧
      e.actual = snapshotQuotaUsage (limits.compactResult r) e.quota ∧
      limits e.quota < e.actual := by
  obtain ⟨e, hassert, hactual, hlimit⟩ := assertWithin_error (h.exceeded hover)
  refine ⟨e, ?_, hactual, lt_of_le_of_lt (Nat.le_max_left _ _) hlimit⟩
  have hcompact : limits.applyAndCompact b (rebasedEnvelope initial b envelope) =
      .error (.quota e) := by
    unfold QuotaLimits.applyAndCompact
    rw [hr]
    show ((limits.assertWithin (limits.compactResult r) (some b.quotaUsage)).mapError
      SyncError.quota >>= fun usage => pure (limits.compactResult r, usage)) = _
    rw [hassert]
    rfl
  unfold QuotaLimits.syncCommand
  dsimp only
  rw [hnew, hcompact]
  rfl

end Loop

/-! ## 4. What was stored is read back as it is -/

section Store

variable [Host] {limit : Nat} {A E : List String} {s t s₀ : WorkspaceState} {cut : Bool}

omit [Host] in
theorem addReceipts_nodup {receipts : List String} (h : receipts.Nodup)
    (commandIds : List (Option String)) : (addReceipts receipts commandIds).Nodup := by
  unfold addReceipts
  induction commandIds generalizing receipts with
  | nil => exact h
  | cons c cs ih =>
      rw [List.foldl_cons]
      refine ih ?_
      cases c with
      | none => exact h
      | some id =>
          dsimp only
          split
          · exact h
          · rename_i hnew
            have hnew : id ∉ receipts := fun hin => hnew (by
              rw [Bool.or_eq_true, List.contains_iff_mem]
              exact .inr hin)
            exact List.nodup_append.mpr ⟨h, List.nodup_singleton id, fun x hx y hy hxy =>
              hnew (List.mem_singleton.mp hy ▸ hxy ▸ hx)⟩

omit [Host] in
theorem Settled.withCommandReceipts (h : Settled s) (commandIds : List (Option String))
    (limit : Nat) : Settled (withCommandReceipts s commandIds limit) :=
  ⟨⟨h.records.items, h.records.locations, h.records.plans, h.records.workspace⟩, h.patches,
    (addReceipts_nodup h.receipts commandIds).sublist (List.drop_sublist _ _)⟩

omit [Host] in
/-- **A chain of removals keeps a state settled.** -/
theorem Compacts.settled (hs : Settled s) (h : Compacts limit A E s cut t) : Settled t := by
  induction h with
  | done => exact hs
  | receipts _ ih => exact ih.withCommandReceipts [] limit
  | @activities _ t removed _ _ ih =>
      unfold withoutActivities
      split
      · exact ih
      · have hleft : Settled { t with
            activities := t.activities.filter fun a => !removed.contains a.id
            audit := normalizeAudit t.audit
              ((t.activities.filter fun a => !removed.contains a.id).map (·.id)) } :=
          ⟨⟨ih.records.items, ih.records.locations, ih.records.plans, ih.records.workspace⟩,
            fun a ha => ih.patches a (List.mem_filter.mp ha).1, ih.receipts⟩
        exact hleft.withCommandReceipts _ limit
  | @audits _ t removed _ _ ih =>
      unfold withoutAudits
      split
      · exact ih
      · have hleft : Settled { t with
            audit := t.audit.filter fun e => !removed.contains e.id } :=
          ⟨⟨ih.records.items, ih.records.locations, ih.records.plans, ih.records.workspace⟩,
            ih.patches, ih.receipts⟩
        exact hleft.withCommandReceipts _ limit
  | @trim _ t removed _ _ ih =>
      unfold withoutReceipts
      split
      · exact ih
      · exact ⟨⟨ih.records.items, ih.records.locations, ih.records.plans, ih.records.workspace⟩,
          ih.patches, ih.receipts.sublist List.filter_sublist⟩

theorem TookEffect.settled {u : Turn} (h : TookEffect u) (hs : Settled u.before) :
    Settled u.after := by
  obtain ⟨base, r, hr, hafter⟩ := h.accepted
  rw [hafter]
  exact (compactWorkspaceHistory_compacts _ _ _ _).settled (applyCommand_settled hs hr)

/-- What a batch makes of a settled state is settled. -/
theorem syncBatch_settled {initial : WorkspaceState} {commands : List CommandEnvelope} {b : Batch}
    (hs : Settled initial) (hb : syncBatch initial commands = .ok b) : Settled b.state := by
  have ht := syncBatch_told hb
  have hrun : ∀ (ts : List Turn) (s : WorkspaceState), Settled s → Linked s ts →
      (∀ u ∈ ts, u.Faithful) → Settled (endOf s ts) := by
    intro ts
    induction ts with
    | nil => exact fun _ hs _ _ => hs
    | cons u us ih =>
        intro s hs hl hf
        obtain ⟨rfl, hl⟩ := hl
        refine ih u.after ?_ hl fun v hv => hf v (List.mem_cons_of_mem _ hv)
        have hu := hf u List.mem_cons_self
        by_cases happlied : u.receipt.status = .applied
        · exact (hu.applied happlied).2.settled hs
        · rw [hu.kept happlied]
          exact hs
  rw [ht.ends]
  exact hrun _ initial hs ht.linked ht.faithful

/-- The stored snapshot is the first one still, or settled. -/
def StoredSettled (s₀ : WorkspaceState) (S : Server) : Prop :=
  ∀ row, S.db.snapshot = some row → (S.history = [] ∧ row.state = s₀) ∨ Settled row.state

variable {workspaceId : String} {S T : Server} {a : ServerAction}

/-- What a swap does to the stored snapshot. -/
structure Swapped (S T : Server) (row row' : SnapshotRow) : Prop where
  loaded : ∃ initial commands b, reload row.state = some initial ∧
    syncBatch initial commands = .ok b ∧ row'.state = b.state
  history : T.history ≠ []

theorem ServerInv.swapped (h : ServerInv s₀ S) {call : Call} {l : Loaded} {b : Batch}
    {db : Database} {row row' : SnapshotRow} {before after : List Call}
    (hcalls : S.calls = before ++ call :: after) (hl : call.loaded = some l)
    (hb : syncBatch l.initial call.commands = .ok b) (ha : b.applied = true)
    (hs : swapState S.db l.initial.workspace.revision b.state call.authorization = some db)
    (hrow : S.db.snapshot = some row) (hrow' : db.snapshot = some row') :
    (∃ initial commands b, reload row.state = some initial ∧
      syncBatch initial commands = .ok b ∧ row'.state = b.state) ∧
    S.history ++ appliedTurns (turnsOf l.initial (startBatch l.initial) call.commands) ≠ [] := by
  have hcall : call ∈ S.calls := by rw [hcalls]; simp
  have hfrom := h.calls call hcall l hl
  obtain ⟨hseen, -⟩ := h.extend hfrom hb ha hs
  have hreload := hfrom.initial
  rw [hseen] at hreload
  rw [h.stored, Option.some.injEq] at hrow
  subst hrow
  obtain ⟨_, -, -, hstored⟩ := swapState_some hs
  rw [hstored, Option.some.injEq] at hrow'
  subst hrow'
  refine ⟨⟨l.initial, call.commands, b, hreload, hb, rfl⟩, ?_⟩
  exact List.append_ne_nil_of_right_ne_nil _ ((syncBatch_told hb).applied_true rfl ha)

/-- **A step leaves the stored snapshot, or stores what a batch made of it.** -/
theorem step_stored (h : ServerInv s₀ S) (hs : ServerStep workspaceId S a T)
    {row row' : SnapshotRow} (hrow : S.db.snapshot = some row)
    (hrow' : T.db.snapshot = some row') :
    (row' = row ∧ T.history = S.history) ∨ Swapped S T row row' := by
  have hsame : ∀ {x y : SnapshotRow}, S.db.snapshot = some x → S.db.snapshot = some y → y = x :=
    fun hx hy => Option.some.inj (hy.symm.trans hx)
  cases hs with
  | access db hdb => exact .inl ⟨hsame hrow (hdb ▸ hrow'), rfl⟩
  | receive call _ _ => exact .inl ⟨hsame hrow hrow', rfl⟩
  | load before after call n initial _ _ _ _ => exact .inl ⟨hsame hrow hrow', rfl⟩
  | answer before after call l b _ _ _ _ => exact .inl ⟨hsame hrow hrow', rfl⟩
  | swap before after call l b db hcalls hl hb ha hswap =>
      obtain ⟨hloaded, hhistory⟩ := h.swapped hcalls hl hb ha hswap hrow hrow'
      exact .inr ⟨hloaded, hhistory⟩
  | swapUnanswered before after call l b db hcalls hl hb ha hswap =>
      obtain ⟨hloaded, hhistory⟩ := h.swapped hcalls hl hb ha hswap hrow hrow'
      exact .inr ⟨hloaded, hhistory⟩
  | retry before after call l b _ _ _ _ _ _ => exact .inl ⟨hsame hrow hrow', rfl⟩
  | fail before after call e _ _ => exact .inl ⟨hsame hrow hrow', rfl⟩

theorem step_storedSettled (hinv : ServerInv s₀ S) (h : StoredSettled s₀ S)
    (hs : ServerStep workspaceId S a T) : StoredSettled s₀ T := by
  intro row' hrow'
  rcases step_stored hinv hs hinv.stored hrow' with ⟨rfl, hhistory⟩ | hswapped
  · rw [hhistory]
    exact h _ hinv.stored
  · obtain ⟨initial, commands, b, hreload, hb, hstate⟩ := hswapped.loaded
    rw [hstate]
    exact .inr (syncBatch_settled (settled_of_reload hreload) hb)

theorem reachable_storedSettled (h : (server workspaceId s₀).Reachable S) :
    StoredSettled s₀ S := by
  have hboth : ServerInv s₀ S ∧ StoredSettled s₀ S := by
    refine h.invariant (P := fun S => ServerInv s₀ S ∧ StoredSettled s₀ S) ?_
      fun _ _ _ hinv hs => ⟨step_serverInv hinv.1 hs, step_storedSettled hinv.1 hinv.2 hs⟩
    intro S hinit
    have hreach : (server workspaceId s₀).Reachable S := ⟨S, [], hinit, .nil _⟩
    refine ⟨reachable_serverInv hreach, fun row hrow => ?_⟩
    rw [hinit.1, Option.some.injEq] at hrow
    exact .inl ⟨hinit.2.2.2.2, hrow ▸ rfl⟩
  exact hboth.2

end Store

/-! ## 5. Every batch -/

section Quotas

variable [Host]

/-- **Quotas cannot be exceeded by syncing.** Whatever the limits, a batch ends with no counter
    above both its limit and the value it was loaded with; a command whose result would be is
    refused, with a receipt that says which counter, and the state stays. So it is for what the
    server stores in every run, where all that it has stored before is loaded as it is. -/
theorem quotas_never_exceeded :
    (∀ (limits : QuotaLimits) (initial : WorkspaceState) (commands : List CommandEnvelope)
        (b : Batch), limits.syncBatch initial commands = .ok b →
      ∀ quota, snapshotQuotaUsage b.state quota ≤
        max (limits quota) (snapshotQuotaUsage initial quota)) ∧
    (∀ (limits : QuotaLimits) (initial : WorkspaceState) (commands : List CommandEnvelope)
        (b : Batch) (envelope : CommandEnvelope) (r : CommandResult) (quota : SnapshotQuota),
      limits.syncBatch initial commands = .ok b →
      wasApplied b.state (receiptId envelope b.receipts.length) = false →
      applyCommand b.state (rebasedEnvelope initial b envelope) = .ok r →
      max (limits quota) (snapshotQuotaUsage initial quota) <
        snapshotQuotaUsage (limits.compactResult r) quota →
      ∃ e : QuotaExceededError, limits.syncBatch initial (commands ++ [envelope]) = .ok { b with
        receipts := b.receipts ++ [{
          commandId := receiptId envelope b.receipts.length
          message := some e.quota.message
          quota := some e
          revision := b.state.workspace.revision
          status := .rejected }] } ∧
        e.actual = snapshotQuotaUsage (limits.compactResult r) e.quota ∧
        limits e.quota < e.actual) ∧
    (∀ initial commands,
      QuotaLimits.syncBatch SnapshotQuota.limit initial commands = syncBatch initial commands) ∧
    ∀ (workspaceId : String) (s₀ : WorkspaceState) (S T : Server) (a : ServerAction)
        (row row' : SnapshotRow),
      (server workspaceId s₀).Reachable S → ServerStep workspaceId S a T →
      S.db.snapshot = some row → T.db.snapshot = some row' → row' ≠ row →
      ∃ initial, reload row.state = some initial ∧
        (∀ quota, snapshotQuotaUsage row'.state quota ≤
          max quota.limit (snapshotQuotaUsage initial quota)) ∧
        (S.history ≠ [] ∨ reload s₀ = some s₀ → initial = row.state) := by
  have hbatch : ∀ (limits : QuotaLimits) (initial : WorkspaceState)
      (commands : List CommandEnvelope) (b : Batch), limits.syncBatch initial commands = .ok b →
      Bounded limits initial b :=
    fun limits initial _ _ h => syncLoopWithin_bounded (startBatch_bounded limits initial) h
  refine ⟨fun limits initial commands b h => (hbatch limits initial commands b h).bounded,
    fun limits initial commands b envelope r quota h hnew hr hover => ?_,
    fun initial commands => syncBatch_limit initial commands,
    fun workspaceId s₀ S T a row row' hreach hs hrow hrow' hne => ?_⟩
  · obtain ⟨e, he, hactual, hlimit⟩ :=
      syncCommandWithin_refuses (hbatch limits initial commands b h) hnew hr hover
    exact ⟨e, syncLoopWithin_append h he, hactual, hlimit⟩
  · rcases step_stored (reachable_serverInv hreach) hs hrow hrow' with ⟨heq, -⟩ | hswapped
    · exact absurd heq hne
    · obtain ⟨initial, commands, b, hreload, hb, hstate⟩ := hswapped.loaded
      rw [← syncBatch_limit] at hb
      refine ⟨initial, hreload, ?_, ?_⟩
      · rw [hstate]
        exact (hbatch _ initial commands b hb).bounded
      · intro hsettled
        rcases reachable_storedSettled hreach row hrow with ⟨hempty, hfirst⟩ | hsame
        · rw [hfirst] at hreload ⊢
          rw [hsettled.resolve_left fun h => h hempty, Option.some.injEq] at hreload
          exact hreload.symm
        · rw [hsame.reload, Option.some.injEq] at hreload
          exact hreload.symm

end Quotas

/-- Where no activity may be stored, a workspace is not renamed. -/
theorem quotas_never_exceeded_rename : ∃ e : QuotaExceededError,
    @QuotaLimits.syncBatch (fun _ => 0) asciiHost firstState
        [firstEnvelope "c1" (.workspaceRename "Flat")] = .ok { @startBatch asciiHost firstState with
      receipts := [{
        commandId := "c1"
        message := some e.quota.message
        quota := some e
        revision := firstState.workspace.revision
        status := .rejected }] } ∧ 0 < e.actual := by
  let : Host := asciiHost
  let b : Batch := startBatch firstState
  let envelope := firstEnvelope "c1" (.workspaceRename "Flat")
  have hrun : (applyCommand b.state (rebasedEnvelope firstState b envelope)).toOption.map (fun r =>
      (QuotaLimits.compactResult (fun _ => 0) r).activities.length) = some 1 := by
    decide +kernel
  cases hr : applyCommand b.state (rebasedEnvelope firstState b envelope) with
  | error e =>
      rw [hr] at hrun
      cases hrun
  | ok r =>
      rw [hr] at hrun
      have hone : (QuotaLimits.compactResult (fun _ => 0) r).activities.length = 1 :=
        Option.some.inj hrun
      have hover : max 0 (snapshotQuotaUsage firstState .activitiesPerSnapshot) <
          snapshotQuotaUsage (QuotaLimits.compactResult (fun _ => 0) r) .activitiesPerSnapshot := by
        show max 0 0 < (QuotaLimits.compactResult (fun _ => 0) r).activities.length
        omega
      obtain ⟨e, he, -, hlimit⟩ := (@quotas_never_exceeded asciiHost).2.1 (fun _ => 0) firstState []
        b envelope r .activitiesPerSnapshot rfl (by decide +kernel) hr hover
      exact ⟨e, he, hlimit⟩

end Stowplan
