/-
  File:      Stowplan/Domain/Retention.lean
  Subject:   HOW MUCH HISTORY IS KEPT (history-retention.ts).

  A snapshot that grows past its limits loses its oldest activities and audit events; what they
  were for is remembered by a receipt, the identifier of their command. The caller protects the
  records of the command it has just applied.

  * `compactWorkspaceHistory`;
  * `compact_induction`: what each kind of removal keeps, compaction keeps;
  * `compact_records`: the records stay as they are.
-/
import Stowplan.Domain.Codec
import Stowplan.Js.Json

namespace Stowplan

open JsValue

/-- `HistoryRetentionLimits`. -/
structure HistoryRetentionLimits where
  activities : Nat
  activityPatches : Nat
  auditEvents : Nat
  commandReceipts : Nat
  serializedBytes : Nat

/-! ## 1. Receipts -/

/-- `event.id` without its prefix, where there is more. -/
def commandIdForAudit (event : AuditEvent) : Option String :=
  if "audit_".toList.isPrefixOf event.id.toList then
    let commandId := String.ofList (event.id.toList.drop 6)
    if commandId = "" then none else some commandId
  else none

/-- Receipts not met before are added at the end. -/
def addReceipts (receipts : List String) (commandIds : List (Option String)) : List String :=
  commandIds.foldl (fun receipts commandId =>
    match commandId with
    | none => receipts
    | some id => if id = "" || receipts.contains id then receipts else receipts ++ [id]) receipts

/-- `withCommandReceipts(state, commandIds, limit)`: the last receipts, each once. -/
def withCommandReceipts (state : WorkspaceState) (commandIds : List (Option String))
    (limit : Nat) : WorkspaceState :=
  let receipts := addReceipts state.commandReceipts commandIds
  { state with commandReceipts := receipts.drop (receipts.length - limit) }

/-! ## 2. Removing history -/

/-- The label of an event that lost some of its targets. -/
def auditLabel (event : AuditEvent) (count : Nat) : String :=
  (match event.type with
    | .undo | .batchUndo => "Undid"
    | .reapply | .batchRedo => "Reapplied") ++
  s!" {count} change" ++ if count = 1 then "" else "s"

/-- Events without the activities that are gone; an event that has none left goes too. -/
def normalizeAudit (audit : List AuditEvent) (retainedActivityIds : List String) :
    List AuditEvent :=
  audit.filterMap fun event =>
    let targetActivityIds := event.targetActivityIds.filter (retainedActivityIds.contains ·)
    if targetActivityIds.isEmpty then none
    else if targetActivityIds.length = event.targetActivityIds.length then some event
    else some { event with label := auditLabel event targetActivityIds.length, targetActivityIds }

/-- `withoutActivities(state, removedIds, receiptLimit)`. -/
def withoutActivities (state : WorkspaceState) (removedIds : List String) (receiptLimit : Nat) :
    WorkspaceState :=
  if removedIds.isEmpty then state
  else
    let removedActivities := state.activities.filter fun a => removedIds.contains a.id
    let activities := state.activities.filter fun a => !removedIds.contains a.id
    let audit := normalizeAudit state.audit (activities.map (·.id))
    let retainedAuditIds := audit.map (·.id)
    withCommandReceipts { state with activities, audit }
      (removedActivities.map (fun a => some a.commandId) ++
        (state.audit.filter fun e => !retainedAuditIds.contains e.id).map commandIdForAudit)
      receiptLimit

/-- `withoutAudits(state, removedIds, receiptLimit)`. -/
def withoutAudits (state : WorkspaceState) (removedIds : List String) (receiptLimit : Nat) :
    WorkspaceState :=
  if removedIds.isEmpty then state
  else
    let removedCommandIds := (state.audit.filter fun e => removedIds.contains e.id).map
      commandIdForAudit
    withCommandReceipts { state with audit := state.audit.filter fun e => !removedIds.contains e.id }
      removedCommandIds receiptLimit

/-- `withoutReceipts(state, removedIds)`. -/
def withoutReceipts (state : WorkspaceState) (removedIds : List String) : WorkspaceState :=
  if removedIds.isEmpty then state
  else { state with
    commandReceipts := state.commandReceipts.filter fun id => !removedIds.contains id }

/-! ## 3. Staying within a size -/

section Bytes

variable [Host]

/-- The loop of `minimalRemovalCount`; each round halves what is between the bounds. -/
def removalCountLoop (fits : Nat → Bool) : Nat → Nat → Nat → Nat
  | 0, low, _ => low
  | fuel + 1, low, high =>
    if low < high then
      let middle := (low + high) / 2
      if fits middle then removalCountLoop fits fuel low middle
      else removalCountLoop fits fuel (middle + 1) high
    else low

/-- The number of the first candidates to remove for the state to fit. -/
def minimalRemovalCount (candidateIds : List String)
    (stateWithout : List String → WorkspaceState) (limit : Nat) : Nat :=
  removalCountLoop
    (fun middle => decide (serializedBytes (encode (stateWithout (candidateIds.take middle))) ≤
      limit))
    candidateIds.length 1 candidateIds.length

/-- The first candidates are removed, as few as make the state fit. -/
def removeMinimal (candidateIds : List String) (stateWithout : List String → WorkspaceState)
    (limit : Nat) : WorkspaceState :=
  stateWithout (candidateIds.take (minimalRemovalCount candidateIds stateWithout limit))

/-- `compactReceiptBytes(state, byteLimit)`. -/
def compactReceiptBytes (state : WorkspaceState) (byteLimit : Nat) : WorkspaceState :=
  let removableReceiptIds := state.commandReceipts.dropLast
  if removableReceiptIds.isEmpty then state
  else if byteLimit < serializedBytes (encode (withoutReceipts state removableReceiptIds)) then
    withoutReceipts state removableReceiptIds
  else removeMinimal removableReceiptIds (withoutReceipts state) byteLimit

/-- The part of `compactBytes` about activities. -/
def compactActivityBytes (state : WorkspaceState) (limits : HistoryRetentionLimits)
    (protectedActivityIds : List String) : WorkspaceState :=
  let removableActivityIds := (state.activities.filter fun a =>
    !protectedActivityIds.contains a.id).map (·.id)
  if removableActivityIds.isEmpty then compactReceiptBytes state limits.serializedBytes
  else
    let removeActivities := fun removedIds =>
      withoutActivities state removedIds limits.commandReceipts
    if serializedBytes (encode (removeActivities removableActivityIds)) ≤
        limits.serializedBytes then
      removeMinimal removableActivityIds removeActivities limits.serializedBytes
    else compactReceiptBytes (removeActivities removableActivityIds) limits.serializedBytes

/-- `compactBytes(state, limits, protectedActivityIds, protectedAuditIds)`. -/
def compactBytes (state : WorkspaceState) (limits : HistoryRetentionLimits)
    (protectedActivityIds protectedAuditIds : List String) : WorkspaceState :=
  if serializedBytes (encode state) ≤ limits.serializedBytes then state
  else
    let removableAuditIds := (state.audit.filter fun e =>
      !protectedAuditIds.contains e.id).map (·.id)
    if removableAuditIds.isEmpty then compactActivityBytes state limits protectedActivityIds
    else
      let removeAudits := fun removedIds => withoutAudits state removedIds limits.commandReceipts
      if serializedBytes (encode (removeAudits removableAuditIds)) ≤ limits.serializedBytes then
        removeMinimal removableAuditIds removeAudits limits.serializedBytes
      else compactActivityBytes (removeAudits removableAuditIds) limits protectedActivityIds

/-- The activities to remove for the counts: the oldest that are not protected, until both
    counts are within their limits. -/
def excessActivities (limits : HistoryRetentionLimits) (protectedActivityIds : List String) :
    Nat → Nat → List ActivityRecord → List String
  | _, _, [] => []
  | remainingActivities, remainingPatches, activity :: rest =>
    if remainingActivities ≤ limits.activities && remainingPatches ≤ limits.activityPatches then []
    else if protectedActivityIds.contains activity.id then
      excessActivities limits protectedActivityIds remainingActivities remainingPatches rest
    else
      activity.id :: excessActivities limits protectedActivityIds (remainingActivities - 1)
        (remainingPatches - activity.patches.length) rest

/-- `compactWorkspaceHistory(state, limits, protectedActivityIds, protectedAuditIds)`. -/
def compactWorkspaceHistory (state : WorkspaceState) (limits : HistoryRetentionLimits)
    (protectedActivityIds protectedAuditIds : List String) : WorkspaceState :=
  let compacted := withCommandReceipts state [] limits.commandReceipts
  let removedActivityIds := excessActivities limits protectedActivityIds
    compacted.activities.length (compacted.activities.map (·.patches.length)).sum
    compacted.activities
  let compacted := withoutActivities compacted removedActivityIds limits.commandReceipts
  let removableAuditIds := ((compacted.audit.filter fun e =>
    !protectedAuditIds.contains e.id).take (compacted.audit.length - limits.auditEvents)).map (·.id)
  let compacted := withoutAudits compacted removableAuditIds limits.commandReceipts
  compactBytes compacted limits protectedActivityIds protectedAuditIds

end Bytes

/-! ## 4. What compaction keeps -/

section Keeps

/-- What holds of a state and is kept by every removal that spares the protected records. -/
structure KeptByRemoval (protectedActivityIds protectedAuditIds : List String)
    (P : WorkspaceState → Prop) : Prop where
  receipts : ∀ s ids, P s → P { s with commandReceipts := ids }
  activities : ∀ s removed limit, (∀ id ∈ removed, id ∉ protectedActivityIds) → P s →
    P (withoutActivities s removed limit)
  audits : ∀ s removed limit, (∀ id ∈ removed, id ∉ protectedAuditIds) → P s →
    P (withoutAudits s removed limit)

/-- The same, where receipts are only ever dropped. -/
structure KeptByCompaction (protectedActivityIds protectedAuditIds : List String)
    (P : WorkspaceState → Prop) : Prop where
  receipts : ∀ s ids, (∀ id ∈ ids, id ∈ s.commandReceipts) → P s →
    P { s with commandReceipts := ids }
  activities : ∀ s removed limit, (∀ id ∈ removed, id ∉ protectedActivityIds) → P s →
    P (withoutActivities s removed limit)
  audits : ∀ s removed limit, (∀ id ∈ removed, id ∉ protectedAuditIds) → P s →
    P (withoutAudits s removed limit)

variable {A E : List String} {P : WorkspaceState → Prop}

/-- What removals keep, a compaction keeps. -/
theorem KeptByRemoval.compaction (h : KeptByRemoval A E P) : KeptByCompaction A E P :=
  ⟨fun s ids _ hs => h.receipts s ids hs, h.activities, h.audits⟩

/-- Dropping receipts keeps it. -/
theorem KeptByCompaction.withoutReceipts (h : KeptByCompaction A E P) {s : WorkspaceState}
    (hs : P s) (removed : List String) : P (withoutReceipts s removed) := by
  unfold Stowplan.withoutReceipts
  split
  · exact hs
  · exact h.receipts s _ (fun id hid => (List.mem_filter.mp hid).1) hs

/-- Only activities that are not protected are in excess. -/
theorem mem_excessActivities {limits : HistoryRetentionLimits} {n m : Nat}
    {activities : List ActivityRecord} {id : String}
    (h : id ∈ excessActivities limits A n m activities) : id ∉ A := by
  induction activities generalizing n m with
  | nil => cases h
  | cons a as ih =>
      simp only [excessActivities] at h
      split at h
      · cases h
      · split at h
        · exact ih h
        · rename_i hout
          rcases List.mem_cons.mp h with rfl | h
          · exact fun hin => hout (List.contains_iff_mem.mpr hin)
          · exact ih h

variable [Host]

/-- The stage that drops receipts keeps it. -/
theorem KeptByCompaction.compactReceiptBytes (h : KeptByCompaction A E P) {s : WorkspaceState}
    (hs : P s) (limit : Nat) : P (compactReceiptBytes s limit) := by
  unfold Stowplan.compactReceiptBytes
  simp only
  split
  · exact hs
  · split
    · exact h.withoutReceipts hs _
    · exact h.withoutReceipts hs _

/-- The stage that drops activities keeps it. -/
theorem KeptByCompaction.compactActivityBytes (h : KeptByCompaction A E P) {s : WorkspaceState}
    (hs : P s) (limits : HistoryRetentionLimits) : P (compactActivityBytes s limits A) := by
  have hout : ∀ id ∈ (s.activities.filter fun a => !A.contains a.id).map (·.id), id ∉ A := by
    intro id hid
    obtain ⟨a, ha, rfl⟩ := List.mem_map.mp hid
    simpa using (List.mem_filter.mp ha).2
  unfold Stowplan.compactActivityBytes
  simp only
  split
  · exact h.compactReceiptBytes hs _
  · split
    · exact h.activities s _ _ (fun id hid => hout id (List.mem_of_mem_take hid)) hs
    · exact h.compactReceiptBytes (h.activities s _ _ hout hs) _

/-- All stages by bytes keep it. -/
theorem KeptByCompaction.compactBytes (h : KeptByCompaction A E P) {s : WorkspaceState} (hs : P s)
    (limits : HistoryRetentionLimits) : P (compactBytes s limits A E) := by
  have hout : ∀ id ∈ (s.audit.filter fun e => !E.contains e.id).map (·.id), id ∉ E := by
    intro id hid
    obtain ⟨e, he, rfl⟩ := List.mem_map.mp hid
    simpa using (List.mem_filter.mp he).2
  unfold Stowplan.compactBytes
  simp only
  split
  · exact hs
  · split
    · exact h.compactActivityBytes hs limits
    · split
      · exact h.audits s _ _ (fun id hid => hout id (List.mem_of_mem_take hid)) hs
      · exact h.compactActivityBytes (h.audits s _ _ hout hs) limits

/-- **What each removal keeps, compaction keeps.** -/
theorem KeptByCompaction.induction (h : KeptByCompaction A E P) {s : WorkspaceState} (hs : P s)
    (limits : HistoryRetentionLimits) : P (compactWorkspaceHistory s limits A E) := by
  refine h.compactBytes (h.audits _ _ _ ?_ (h.activities _ _ _ ?_ (h.receipts s _ ?_ hs))) limits
  · intro id hid
    obtain ⟨e, he, rfl⟩ := List.mem_map.mp hid
    simpa using (List.mem_filter.mp (List.mem_of_mem_take he)).2
  · exact fun id hid => mem_excessActivities hid
  · exact fun id hid => List.mem_of_mem_drop hid

/-- A property that each removal keeps holds after the compaction. -/
theorem compact_induction (h : KeptByRemoval A E P) {s : WorkspaceState} (hs : P s)
    (limits : HistoryRetentionLimits) : P (compactWorkspaceHistory s limits A E) :=
  h.compaction.induction hs limits

/-- The records and the workspace are the same. -/
structure SameRecords (s t : WorkspaceState) : Prop where
  items : t.items = s.items
  locations : t.locations = s.locations
  plans : t.plans = s.plans
  workspace : t.workspace = s.workspace

omit [Host] in

/-- Dropping activities keeps the records. -/
theorem sameRecords_withoutActivities (s : WorkspaceState) (removed : List String) (limit : Nat) :
    SameRecords s (withoutActivities s removed limit) := by
  unfold withoutActivities
  split <;> exact ⟨rfl, rfl, rfl, rfl⟩

omit [Host] in

/-- Dropping events keeps the records. -/
theorem sameRecords_withoutAudits (s : WorkspaceState) (removed : List String) (limit : Nat) :
    SameRecords s (withoutAudits s removed limit) := by
  unfold withoutAudits
  split <;> exact ⟨rfl, rfl, rfl, rfl⟩

omit [Host] in
theorem SameRecords.trans {s t u : WorkspaceState} (h : SameRecords s t) (h' : SameRecords t u) :
    SameRecords s u :=
  ⟨h'.items.trans h.items, h'.locations.trans h.locations, h'.plans.trans h.plans,
    h'.workspace.trans h.workspace⟩

/-- **Compaction leaves the records and the workspace as they are.** -/
theorem compact_records (s : WorkspaceState) (limits : HistoryRetentionLimits)
    (A E : List String) : SameRecords s (compactWorkspaceHistory s limits A E) := by
  have hkept : KeptByRemoval A E (SameRecords s) := by
    refine ⟨fun t ids h => ?_, fun t removed limit _ h => ?_, fun t removed limit _ h => ?_⟩
    · exact h.trans ⟨rfl, rfl, rfl, rfl⟩
    · exact h.trans (sameRecords_withoutActivities t removed limit)
    · exact h.trans (sameRecords_withoutAudits t removed limit)
  exact compact_induction hkept ⟨rfl, rfl, rfl, rfl⟩ limits

/-- A protected activity is kept. -/
theorem compact_activity {s : WorkspaceState} {a : ActivityRecord} (ha : a ∈ s.activities)
    (hp : a.id ∈ A) (limits : HistoryRetentionLimits) :
    a ∈ (compactWorkspaceHistory s limits A E).activities := by
  refine compact_induction (P := fun t => a ∈ t.activities) ⟨fun t ids h => h, ?_, ?_⟩ ha limits
  · intro t removed limit hout h
    unfold withoutActivities
    split
    · exact h
    · refine List.mem_filter.mpr ⟨h, ?_⟩
      simpa using fun hin => hout _ hin hp
  · intro t removed limit hout h
    unfold withoutAudits
    split <;> exact h

omit [Host] in
/-- An event with a target that is kept is kept, under its identifier. -/
theorem normalizeAudit_keeps {audit : List AuditEvent} {retained : List String} {e : AuditEvent}
    (he : e ∈ audit) {id : String}
    (hin : id ∈ e.targetActivityIds.filter (retained.contains ·)) :
    ∃ e' ∈ normalizeAudit audit retained, e'.id = e.id ∧ id ∈ e'.targetActivityIds := by
  have hsome : ¬ (e.targetActivityIds.filter (retained.contains ·)).isEmpty = true := by
    simpa using List.ne_nil_of_mem hin
  by_cases hlen : (e.targetActivityIds.filter (retained.contains ·)).length =
      e.targetActivityIds.length
  · refine ⟨e, List.mem_filterMap.mpr ⟨e, he, ?_⟩, rfl, (List.mem_filter.mp hin).1⟩
    simp only
    rw [if_neg hsome, if_pos hlen]
  · refine ⟨{ e with
      label := auditLabel e (e.targetActivityIds.filter (retained.contains ·)).length
      targetActivityIds := e.targetActivityIds.filter (retained.contains ·) },
      List.mem_filterMap.mpr ⟨e, he, ?_⟩, rfl, hin⟩
    simp only
    rw [if_neg hsome, if_neg hlen]

/-- A protected event with a protected target that is there is kept, under its identifier. -/
theorem compact_audit {s : WorkspaceState} {e : AuditEvent} (he : e ∈ s.audit) (hE : e.id ∈ E)
    {a : ActivityRecord} (ha : a ∈ s.activities) (hA : a.id ∈ A)
    (ht : a.id ∈ e.targetActivityIds) (limits : HistoryRetentionLimits) :
    ∃ e' ∈ (compactWorkspaceHistory s limits A E).audit, e'.id = e.id := by
  let P : WorkspaceState → Prop := fun t =>
    a ∈ t.activities ∧ ∃ e' ∈ t.audit, e'.id = e.id ∧ a.id ∈ e'.targetActivityIds
  have hkept : KeptByRemoval A E P := by
    refine ⟨fun t ids h => h, ?_, ?_⟩
    · rintro t removed limit hout ⟨hat, e', he', hid, htarget⟩
      unfold withoutActivities
      split
      · exact ⟨hat, e', he', hid, htarget⟩
      · have hkeep : a ∈ t.activities.filter fun a => !removed.contains a.id :=
          List.mem_filter.mpr ⟨hat, by simpa using fun hin => hout _ hin hA⟩
        have hin : a.id ∈ e'.targetActivityIds.filter (((t.activities.filter fun a =>
            !removed.contains a.id).map (·.id)).contains ·) :=
          List.mem_filter.mpr ⟨htarget,
            List.contains_iff_mem.mpr (List.mem_map_of_mem hkeep)⟩
        obtain ⟨e₂, he₂, hid₂, htarget₂⟩ := normalizeAudit_keeps he' hin
        exact ⟨hkeep, e₂, he₂, hid₂.trans hid, htarget₂⟩
    · rintro t removed limit hout ⟨hat, e', he', hid, htarget⟩
      unfold withoutAudits
      split
      · exact ⟨hat, e', he', hid, htarget⟩
      · refine ⟨hat, e', List.mem_filter.mpr ⟨he', ?_⟩, hid, htarget⟩
        simpa using fun hin => hout _ hin (hid ▸ hE)
  obtain ⟨-, e', he', hid, -⟩ := compact_induction hkept ⟨ha, e, he, rfl, ht⟩ limits
  exact ⟨e', he', hid⟩

/-! ## 5. Where receipts come from -/

omit [Host] in

/-- A receipt was there or was added. -/
theorem mem_addReceipts {receipts : List String} {commandIds : List (Option String)} {id : String}
    (h : id ∈ addReceipts receipts commandIds) : id ∈ receipts ∨ some id ∈ commandIds := by
  unfold addReceipts at h
  induction commandIds generalizing receipts with
  | nil => exact .inl h
  | cons c cs ih =>
      rw [List.foldl_cons] at h
      rcases ih h with h | h
      · cases c with
        | none => exact .inl h
        | some c =>
            dsimp only at h
            split at h
            · exact .inl h
            · rcases List.mem_append.mp h with h | h
              · exact .inl h
              · rw [List.mem_singleton.mp h]
                exact .inr List.mem_cons_self
      · exact .inr (List.mem_cons_of_mem _ h)

omit [Host] in

/-- The command an event stands for is in its id. -/
theorem commandIdForAudit_some {e : AuditEvent} {id : String} (h : commandIdForAudit e = some id) :
    e.id = "audit_" ++ id := by
  unfold commandIdForAudit at h
  split at h
  · rename_i hp
    dsimp only at h
    split at h
    · cases h
    · obtain ⟨rest, hrest⟩ := List.isPrefixOf_iff_prefix.mp hp
      cases h
      rw [← hrest]
      apply String.toList_inj.mp
      rw [← hrest]
      simp
  · cases h

omit [Host] in

/-- An event that stays is one that was there. -/
theorem mem_normalizeAudit {audit : List AuditEvent} {retained : List String} {e : AuditEvent}
    (h : e ∈ normalizeAudit audit retained) : ∃ e' ∈ audit, e.id = e'.id := by
  obtain ⟨e', he', h⟩ := List.mem_filterMap.mp h
  refine ⟨e', he', ?_⟩
  dsimp only at h
  split at h
  · cases h
  · split at h
    · cases h
      rfl
    · cases h
      rfl

end Keeps

end Stowplan
