/-
  File:      Stowplan/Server/Compaction.lean
  Subject:   WHAT COMPACTION FORGETS, stage by stage.

  Compaction is a chain of removals: of activities, of audit events, of receipts. Each removal of
  an activity or an event leaves a receipt for its command, so a command is forgotten only where
  the ledger of receipts itself is cut.

  * `Compacts`: the chain, with a note whether the ledger was cut on the way;
  * `compactWorkspaceHistory_compacts`: compaction is such a chain;
  * `Compacts.recognised`, `Compacts.audit`: what a chain keeps.
-/
import Stowplan.Server.Sync

namespace Stowplan

open JsValue

/-! ## 1. The ledger of receipts -/

/-- The receipts asked for exceed the limit: the oldest go. -/
def cutsReceipts (state : WorkspaceState) (commandIds : List (Option String)) (limit : Nat) :
    Bool :=
  decide (limit < (addReceipts state.commandReceipts commandIds).length)

/-- The audit events that are left when activities go. -/
def auditWithout (state : WorkspaceState) (removedIds : List String) : List AuditEvent :=
  normalizeAudit state.audit
    ((state.activities.filter fun a => !removedIds.contains a.id).map (·.id))

/-- The receipts that removing activities asks for. -/
def activityReceipts (state : WorkspaceState) (removedIds : List String) :
    List (Option String) :=
  ((state.activities.filter fun a => removedIds.contains a.id).map fun a => some a.commandId) ++
    (state.audit.filter fun e =>
      !((auditWithout state removedIds).map (·.id)).contains e.id).map commandIdForAudit

/-- The receipts that removing audit events asks for. -/
def auditReceipts (state : WorkspaceState) (removedIds : List String) : List (Option String) :=
  (state.audit.filter fun e => removedIds.contains e.id).map commandIdForAudit

/-- Dropping these activities also drops receipts. -/
def activitiesCut (state : WorkspaceState) (removedIds : List String) (limit : Nat) : Bool :=
  !removedIds.isEmpty && cutsReceipts state (activityReceipts state removedIds) limit

/-- Dropping these events also drops receipts. -/
def auditsCut (state : WorkspaceState) (removedIds : List String) (limit : Nat) : Bool :=
  !removedIds.isEmpty && cutsReceipts state (auditReceipts state removedIds) limit

section Cuts

variable [Host] (limits : HistoryRetentionLimits) (A E : List String)

/-- The byte stage that trims receipts has one to trim. -/
def receiptBytesCut (state : WorkspaceState) : Bool := !state.commandReceipts.dropLast.isEmpty

/-- The ledger was cut in `compactActivityBytes`. -/
def activityBytesCut (state : WorkspaceState) : Bool :=
  let removable := (state.activities.filter fun a => !A.contains a.id).map (·.id)
  let remove := fun removed => withoutActivities state removed limits.commandReceipts
  if removable.isEmpty then receiptBytesCut state
  else if serializedBytes (encode (remove removable)) ≤ limits.serializedBytes then
    activitiesCut state
      (removable.take (minimalRemovalCount removable remove limits.serializedBytes))
      limits.commandReceipts
  else activitiesCut state removable limits.commandReceipts || receiptBytesCut (remove removable)

/-- The ledger was cut in `compactBytes`. -/
def bytesCut (state : WorkspaceState) : Bool :=
  if serializedBytes (encode state) ≤ limits.serializedBytes then false
  else
    let removable := (state.audit.filter fun e => !E.contains e.id).map (·.id)
    let remove := fun removed => withoutAudits state removed limits.commandReceipts
    if removable.isEmpty then activityBytesCut limits A state
    else if serializedBytes (encode (remove removable)) ≤ limits.serializedBytes then
      auditsCut state
        (removable.take (minimalRemovalCount removable remove limits.serializedBytes))
        limits.commandReceipts
    else auditsCut state removable limits.commandReceipts || activityBytesCut limits A
      (remove removable)

/-- The receipt ledger was cut: its count limit was exceeded, or the byte stage trimmed it. -/
def ledgerCut (state : WorkspaceState) : Bool :=
  let first := withCommandReceipts state [] limits.commandReceipts
  let removedActivityIds := excessActivities limits A first.activities.length
    (first.activities.map (·.patches.length)).sum first.activities
  let second := withoutActivities first removedActivityIds limits.commandReceipts
  let removableAuditIds := ((second.audit.filter fun e => !E.contains e.id).take
    (second.audit.length - limits.auditEvents)).map (·.id)
  let third := withoutAudits second removableAuditIds limits.commandReceipts
  cutsReceipts state [] limits.commandReceipts ||
    activitiesCut first removedActivityIds limits.commandReceipts ||
    auditsCut second removableAuditIds limits.commandReceipts || bytesCut limits A E third

end Cuts

/-! ## 2. Compaction as a chain of removals -/

/-- A chain of removals from `s` that spares the protected records, and whether the ledger of
    receipts was cut on the way. -/
inductive Compacts (limit : Nat) (A E : List String) (s : WorkspaceState) :
    Bool → WorkspaceState → Prop where
  | done : Compacts limit A E s false s
  | receipts {cut : Bool} {t : WorkspaceState} (h : Compacts limit A E s cut t) :
      Compacts limit A E s (cut || cutsReceipts t [] limit) (withCommandReceipts t [] limit)
  | activities {cut : Bool} {t : WorkspaceState} {removed : List String}
      (h : Compacts limit A E s cut t) (hout : ∀ id ∈ removed, id ∉ A) :
      Compacts limit A E s (cut || activitiesCut t removed limit)
        (withoutActivities t removed limit)
  | audits {cut : Bool} {t : WorkspaceState} {removed : List String}
      (h : Compacts limit A E s cut t) (hout : ∀ id ∈ removed, id ∉ E) :
      Compacts limit A E s (cut || auditsCut t removed limit) (withoutAudits t removed limit)
  | trim {cut : Bool} {t : WorkspaceState} {removed : List String}
      (h : Compacts limit A E s cut t) (hin : ∀ id ∈ removed, id ∈ t.commandReceipts.dropLast) :
      Compacts limit A E s (cut || receiptBytesCut t) (withoutReceipts t removed)

section Chain

variable [Host] {limits : HistoryRetentionLimits} {A E : List String} {s t : WorkspaceState}
  {cut : Bool}

theorem Compacts.compactReceiptBytes (h : Compacts limits.commandReceipts A E s cut t)
    (limit : Nat) : Compacts limits.commandReceipts A E s (cut || receiptBytesCut t)
      (compactReceiptBytes t limit) := by
  unfold Stowplan.compactReceiptBytes
  simp only
  split
  · rename_i hnone
    have hcut : receiptBytesCut t = false := by
      unfold receiptBytesCut
      rw [hnone]
      rfl
    rw [hcut, Bool.or_false]
    exact h
  · split
    · exact h.trim fun id hid => hid
    · exact h.trim fun id hid => List.mem_of_mem_take hid

theorem Compacts.compactActivityBytes (h : Compacts limits.commandReceipts A E s cut t) :
    Compacts limits.commandReceipts A E s (cut || activityBytesCut limits A t)
      (compactActivityBytes t limits A) := by
  have hout : ∀ id ∈ (t.activities.filter fun a => !A.contains a.id).map (·.id), id ∉ A := by
    intro id hid
    obtain ⟨a, ha, rfl⟩ := List.mem_map.mp hid
    simpa using (List.mem_filter.mp ha).2
  unfold Stowplan.compactActivityBytes activityBytesCut
  simp only
  split
  · exact h.compactReceiptBytes _
  · split
    · exact h.activities fun id hid => hout id (List.mem_of_mem_take hid)
    · rw [← Bool.or_assoc]
      exact (h.activities hout).compactReceiptBytes _

theorem Compacts.compactBytes (h : Compacts limits.commandReceipts A E s cut t) :
    Compacts limits.commandReceipts A E s (cut || bytesCut limits A E t)
      (compactBytes t limits A E) := by
  have hout : ∀ id ∈ (t.audit.filter fun e => !E.contains e.id).map (·.id), id ∉ E := by
    intro id hid
    obtain ⟨e, he, rfl⟩ := List.mem_map.mp hid
    simpa using (List.mem_filter.mp he).2
  unfold Stowplan.compactBytes bytesCut
  simp only
  split
  · rw [Bool.or_false]
    exact h
  · split
    · exact h.compactActivityBytes
    · split
      · exact h.audits fun id hid => hout id (List.mem_of_mem_take hid)
      · rw [← Bool.or_assoc]
        exact (h.audits hout).compactActivityBytes

/-- **Compaction is a chain of removals.** -/
theorem compactWorkspaceHistory_compacts (s : WorkspaceState) (limits : HistoryRetentionLimits)
    (A E : List String) : Compacts limits.commandReceipts A E s (ledgerCut limits A E s)
      (compactWorkspaceHistory s limits A E) := by
  refine Compacts.compactBytes (.audits (.activities ?_ ?_) ?_)
  · have h : Compacts limits.commandReceipts A E s
        (false || cutsReceipts s [] limits.commandReceipts) _ := .receipts .done
    rwa [Bool.false_or] at h
  · exact fun id hid => mem_excessActivities hid
  · intro id hid
    obtain ⟨e, he, rfl⟩ := List.mem_map.mp hid
    simpa using (List.mem_filter.mp (List.mem_of_mem_take he)).2

end Chain

/-! ## 3. What a chain keeps -/

section Keeps

variable {limit : Nat} {A E : List String} {s t : WorkspaceState} {cut : Bool}

theorem withoutActivities_eq {removed : List String} (h : removed.isEmpty = false) :
    withoutActivities t removed limit = withCommandReceipts { t with
      activities := t.activities.filter fun a => !removed.contains a.id
      audit := auditWithout t removed } (activityReceipts t removed) limit := by
  unfold withoutActivities
  rw [h]
  rfl

theorem withoutAudits_eq {removed : List String} (h : removed.isEmpty = false) :
    withoutAudits t removed limit = withCommandReceipts { t with
      audit := t.audit.filter fun e => !removed.contains e.id } (auditReceipts t removed)
      limit := by
  unfold withoutAudits
  rw [h]
  rfl

theorem addReceipts_extends (receipts : List String) (commandIds : List (Option String)) :
    receipts <+: addReceipts receipts commandIds := by
  unfold addReceipts
  induction commandIds generalizing receipts with
  | nil => exact List.prefix_rfl
  | cons c cs ih =>
      rw [List.foldl_cons]
      refine List.IsPrefix.trans ?_ (ih _)
      cases c with
      | none => exact List.prefix_rfl
      | some id =>
          dsimp only
          split
          · exact List.prefix_rfl
          · exact List.prefix_append _ _

/-- A command that asks for a receipt has one. -/
theorem mem_addReceipts_of_mem {receipts : List String} {commandIds : List (Option String)}
    {id : String} (h : some id ∈ commandIds) (hid : id ≠ "") :
    id ∈ addReceipts receipts commandIds := by
  induction commandIds generalizing receipts with
  | nil => cases h
  | cons c cs ih =>
      unfold addReceipts
      rw [List.foldl_cons]
      rcases List.mem_cons.mp h with rfl | h
      · refine (addReceipts_extends _ cs).subset ?_
        dsimp only
        split
        · rename_i hc
          simpa [hid] using hc
        · exact List.mem_append_right _ (List.mem_singleton_self id)
      · exact ih h

/-- A ledger that is not cut keeps what it holds, in its order, and takes what is asked for. -/
theorem receipts_uncut {commandIds : List (Option String)}
    (h : cutsReceipts t commandIds limit = false) :
    (withCommandReceipts t commandIds limit).commandReceipts =
      addReceipts t.commandReceipts commandIds := by
  have hle : (addReceipts t.commandReceipts commandIds).length ≤ limit := by
    unfold cutsReceipts at h
    have := of_decide_eq_false h
    omega
  show (addReceipts t.commandReceipts commandIds).drop _ = _
  rw [Nat.sub_eq_zero_of_le hle, List.drop_zero]

theorem withoutActivities_receipts {removed : List String} (h : removed.isEmpty = false)
    (hcut : cutsReceipts t (activityReceipts t removed) limit = false) :
    (withoutActivities t removed limit).commandReceipts =
      addReceipts t.commandReceipts (activityReceipts t removed) := by
  rw [withoutActivities_eq h]
  exact receipts_uncut (t := { t with
    activities := t.activities.filter fun a => !removed.contains a.id
    audit := auditWithout t removed }) hcut

theorem withoutAudits_receipts {removed : List String} (h : removed.isEmpty = false)
    (hcut : cutsReceipts t (auditReceipts t removed) limit = false) :
    (withoutAudits t removed limit).commandReceipts =
      addReceipts t.commandReceipts (auditReceipts t removed) := by
  rw [withoutAudits_eq h]
  exact receipts_uncut (t := { t with
    audit := t.audit.filter fun e => !removed.contains e.id }) hcut

/-- The ledger, where it was not cut, goes on. -/
theorem Compacts.ledger (h : Compacts limit A E s cut t) (hcut : cut = false) :
    s.commandReceipts <+: t.commandReceipts := by
  induction h with
  | done => exact List.prefix_rfl
  | receipts h ih =>
      obtain ⟨hcut, hnow⟩ := Bool.or_eq_false_iff.mp hcut
      rw [receipts_uncut hnow]
      exact (ih hcut).trans (addReceipts_extends _ _)
  | @activities cut t removed h hout ih =>
      obtain ⟨hcut, hnow⟩ := Bool.or_eq_false_iff.mp hcut
      cases hr : removed.isEmpty with
      | true =>
          unfold withoutActivities
          rw [hr]
          exact ih hcut
      | false =>
          simp only [activitiesCut, hr, Bool.not_false, Bool.true_and] at hnow
          rw [withoutActivities_receipts hr hnow]
          exact (ih hcut).trans (addReceipts_extends _ _)
  | @audits cut t removed h hout ih =>
      obtain ⟨hcut, hnow⟩ := Bool.or_eq_false_iff.mp hcut
      cases hr : removed.isEmpty with
      | true =>
          unfold withoutAudits
          rw [hr]
          exact ih hcut
      | false =>
          simp only [auditsCut, hr, Bool.not_false, Bool.true_and] at hnow
          rw [withoutAudits_receipts hr hnow]
          exact (ih hcut).trans (addReceipts_extends _ _)
  | @trim cut t removed h hin ih =>
      obtain ⟨hcut, hnow⟩ := Bool.or_eq_false_iff.mp hcut
      have hnone : t.commandReceipts.dropLast = [] := by
        unfold receiptBytesCut at hnow
        simpa using hnow
      rw [hnone] at hin
      have hempty : removed = [] := List.eq_nil_iff_forall_not_mem.mpr fun id hid =>
        List.not_mem_nil (hin id hid)
      rw [hempty]
      exact ih hcut

theorem commandIdForAudit_of_id {e : AuditEvent} {id : String} (h : e.id = "audit_" ++ id)
    (hid : id ≠ "") : commandIdForAudit e = some id := by
  have hlist : e.id.toList = "audit_".toList ++ id.toList := by
    rw [h, String.toList_append]
  have hprefix : "audit_".toList.isPrefixOf e.id.toList = true := by
    rw [List.isPrefixOf_iff_prefix, hlist]
    exact List.prefix_append _ _
  have hdrop : String.ofList (e.id.toList.drop 6) = id := by
    rw [hlist]
    have hrest : ("audit_".toList ++ id.toList).drop 6 = id.toList := List.drop_left' rfl
    exact (congrArg String.ofList hrest).trans String.ofList_toList
  unfold commandIdForAudit
  rw [if_pos hprefix]
  simp only [hdrop, if_neg hid]

/-- Removing activities leaves a receipt for each command that only they knew. -/
theorem wasApplied_withoutActivities {removed : List String} {id : String} (hid : id ≠ "")
    (hcut : activitiesCut t removed limit = false) (h : wasApplied t id = true) :
    wasApplied (withoutActivities t removed limit) id = true := by
  cases hr : removed.isEmpty with
  | true =>
      unfold withoutActivities
      rw [hr]
      exact h
  | false =>
      simp only [activitiesCut, hr, Bool.not_false, Bool.true_and] at hcut
      rw [wasApplied_iff, withoutActivities_receipts hr hcut, withoutActivities_eq hr]
      rcases wasApplied_iff.mp h with h | ⟨a, ha, hcommand⟩ | ⟨e, he, haudit⟩
      · exact .inl ((addReceipts_extends _ _).subset h)
      · by_cases hin : removed.contains a.id = true
        · refine .inl (mem_addReceipts_of_mem (List.mem_append_left _ ?_) hid)
          rw [← hcommand]
          exact List.mem_map_of_mem (f := fun a : ActivityRecord => some a.commandId)
            (List.mem_filter.mpr ⟨ha, hin⟩)
        · refine .inr (.inl ⟨a, List.mem_filter.mpr ⟨ha, ?_⟩, hcommand⟩)
          simpa using hin
      · by_cases hin : ((auditWithout t removed).map (·.id)).contains e.id = true
        · obtain ⟨e', he', hsame⟩ := List.mem_map.mp (List.contains_iff_mem.mp hin)
          exact .inr (.inr ⟨e', he', hsame.trans haudit⟩)
        · refine .inl (mem_addReceipts_of_mem (List.mem_append_right _ ?_) hid)
          rw [← commandIdForAudit_of_id haudit hid]
          refine List.mem_map_of_mem (List.mem_filter.mpr ⟨he, ?_⟩)
          simpa using hin

theorem wasApplied_withoutAudits {removed : List String} {id : String} (hid : id ≠ "")
    (hcut : auditsCut t removed limit = false) (h : wasApplied t id = true) :
    wasApplied (withoutAudits t removed limit) id = true := by
  cases hr : removed.isEmpty with
  | true =>
      unfold withoutAudits
      rw [hr]
      exact h
  | false =>
      simp only [auditsCut, hr, Bool.not_false, Bool.true_and] at hcut
      rw [wasApplied_iff, withoutAudits_receipts hr hcut, withoutAudits_eq hr]
      rcases wasApplied_iff.mp h with h | h | ⟨e, he, haudit⟩
      · exact .inl ((addReceipts_extends _ _).subset h)
      · exact .inr (.inl h)
      · by_cases hin : removed.contains e.id = true
        · refine .inl (mem_addReceipts_of_mem ?_ hid)
          rw [← commandIdForAudit_of_id haudit hid]
          exact List.mem_map_of_mem (List.mem_filter.mpr ⟨he, hin⟩)
        · refine .inr (.inr ⟨e, List.mem_filter.mpr ⟨he, ?_⟩, haudit⟩)
          simpa using hin

/-- **A command that was recognised is recognised**, where the ledger was not cut. -/
theorem Compacts.recognised (h : Compacts limit A E s cut t) (hcut : cut = false) {id : String}
    (hid : id ≠ "") (hs : wasApplied s id = true) : wasApplied t id = true := by
  induction h with
  | done => exact hs
  | receipts h ih =>
      obtain ⟨hcut, hnow⟩ := Bool.or_eq_false_iff.mp hcut
      rw [wasApplied_iff, receipts_uncut hnow]
      exact (wasApplied_iff.mp (ih hcut)).imp_left fun h => (addReceipts_extends _ _).subset h
  | activities h hout ih =>
      obtain ⟨hcut, hnow⟩ := Bool.or_eq_false_iff.mp hcut
      exact wasApplied_withoutActivities hid hnow (ih hcut)
  | audits h hout ih =>
      obtain ⟨hcut, hnow⟩ := Bool.or_eq_false_iff.mp hcut
      exact wasApplied_withoutAudits hid hnow (ih hcut)
  | @trim cut t removed h hin ih =>
      obtain ⟨hcut, hnow⟩ := Bool.or_eq_false_iff.mp hcut
      have hnone : t.commandReceipts.dropLast = [] := by
        unfold receiptBytesCut at hnow
        simpa using hnow
      rw [hnone] at hin
      have hempty : removed = [] := List.eq_nil_iff_forall_not_mem.mpr fun id hid =>
        List.not_mem_nil (hin id hid)
      rw [hempty]
      exact ih hcut

/-- The history that remains stands in its order. -/
structure InOrder (s t : WorkspaceState) : Prop where
  activities : t.activities.Sublist s.activities
  audit : (t.audit.map (·.id)).Sublist (s.audit.map (·.id))

theorem normalizeAudit_ids (audit : List AuditEvent) (retained : List String) :
    ((normalizeAudit audit retained).map (·.id)).Sublist (audit.map (·.id)) := by
  induction audit with
  | nil => exact .slnil
  | cons e es ih =>
      unfold normalizeAudit
      rw [List.filterMap_cons]
      simp only
      split
      · exact ih.cons _
      · rename_i e' he'
        have hid : e'.id = e.id := by
          split at he'
          · cases he'
          · split at he' <;> cases he' <;> rfl
        rw [List.map_cons, List.map_cons, hid]
        exact ih.cons_cons _

theorem Compacts.inOrder (h : Compacts limit A E s cut t) : InOrder s t := by
  induction h with
  | done => exact ⟨.refl _, .refl _⟩
  | receipts h ih => exact ⟨ih.activities, ih.audit⟩
  | @activities cut t removed h hout ih =>
      unfold withoutActivities
      split
      · exact ih
      · exact ⟨List.filter_sublist.trans ih.activities,
          (normalizeAudit_ids _ _).trans ih.audit⟩
  | @audits cut t removed h hout ih =>
      unfold withoutAudits
      split
      · exact ih
      · exact ⟨ih.activities, (List.filter_sublist.map _).trans ih.audit⟩
  | @trim cut t removed h hin ih =>
      unfold withoutReceipts
      split
      · exact ih
      · exact ⟨ih.activities, ih.audit⟩

/-- The event names activities, and only those of the state. -/
def Referenced (s : WorkspaceState) (e : AuditEvent) : Prop :=
  e.targetActivityIds ≠ [] ∧ ∀ id ∈ e.targetActivityIds, id ∈ s.activities.map (·.id)

theorem normalizeAudit_referenced {audit : List AuditEvent} {retained : List String}
    {e : AuditEvent} (h : e ∈ normalizeAudit audit retained) :
    e.targetActivityIds ≠ [] ∧ ∀ id ∈ e.targetActivityIds, id ∈ retained := by
  obtain ⟨e', -, h⟩ := List.mem_filterMap.mp h
  have hin : ∀ id ∈ e'.targetActivityIds.filter (retained.contains ·), id ∈ retained :=
    fun id hid => List.contains_iff_mem.mp (List.mem_filter.mp hid).2
  dsimp only at h
  split at h
  · cases h
  · rename_i hsome
    split at h
    · rename_i hlen
      cases h
      have hall := List.filter_eq_self.mp (List.filter_sublist.eq_of_length hlen)
      refine ⟨fun hnil => hsome ?_, fun id hid => List.contains_iff_mem.mp (hall id hid)⟩
      rw [hnil]
      rfl
    · cases h
      exact ⟨fun hnil => hsome (List.isEmpty_iff.mpr hnil), hin⟩

/-- **The events that remain name activities that remain.** -/
theorem Compacts.referenced (h : Compacts limit A E s cut t)
    (hs : ∀ e ∈ s.audit, Referenced s e) : ∀ e ∈ t.audit, Referenced t e := by
  induction h with
  | done => exact hs
  | receipts h ih => exact ih
  | @activities cut t removed h hout ih =>
      unfold withoutActivities
      split
      · exact ih
      · exact fun e he => normalizeAudit_referenced he
  | @audits cut t removed h hout ih =>
      unfold withoutAudits
      split
      · exact ih
      · exact fun e he => ih e (List.mem_filter.mp he).1
  | @trim cut t removed h hin ih =>
      unfold withoutReceipts
      split
      · exact ih
      · exact ih

/-- **A protected event whose activities are protected stays as it is.** -/
theorem Compacts.event (h : Compacts limit A E s cut t) {e : AuditEvent} (he : e ∈ s.audit)
    (hE : e.id ∈ E) (hA : ∀ id ∈ e.targetActivityIds, id ∈ A) (hs : Referenced s e) :
    e ∈ t.audit ∧ Referenced t e := by
  induction h with
  | done => exact ⟨he, hs⟩
  | receipts h ih => exact ih
  | @activities cut t removed h hout ih =>
      unfold withoutActivities
      split
      · exact ih
      · obtain ⟨hin, hsome, hall⟩ := ih
        have hretained : ∀ id ∈ e.targetActivityIds, id ∈
            (t.activities.filter fun a => !removed.contains a.id).map (·.id) := by
          intro id hid
          obtain ⟨a, ha, rfl⟩ := List.mem_map.mp (hall id hid)
          refine List.mem_map_of_mem (List.mem_filter.mpr ⟨ha, ?_⟩)
          simpa using fun hr => hout _ hr (hA _ hid)
        have hfilter : e.targetActivityIds.filter (((t.activities.filter fun a =>
            !removed.contains a.id).map (·.id)).contains ·) = e.targetActivityIds :=
          List.filter_eq_self.mpr fun id hid => List.contains_iff_mem.mpr (hretained id hid)
        refine ⟨List.mem_filterMap.mpr ⟨e, hin, ?_⟩, hsome, hretained⟩
        simp only [hfilter]
        rw [if_neg (by simpa using hsome), if_pos trivial]
  | @audits cut t removed h hout ih =>
      unfold withoutAudits
      split
      · exact ih
      · refine ⟨List.mem_filter.mpr ⟨ih.1, ?_⟩, ih.2⟩
        simpa using fun hr => hout _ hr hE
  | @trim cut t removed h hin ih =>
      unfold withoutReceipts
      split
      · exact ih
      · exact ih

end Keeps

/-! ## 4. Compaction -/

section Compaction

variable [Host]

/-- What compaction keeps of a state. -/
structure Compacted (limits : HistoryRetentionLimits) (A E : List String)
    (s t : WorkspaceState) : Prop where
  records : SameRecords s t
  activities : ∀ a ∈ s.activities, a.id ∈ A → a ∈ t.activities
  audit : ∀ e ∈ s.audit, e.id ∈ E → e ∈ t.audit
  order : InOrder s t
  ledger : ledgerCut limits A E s = false → s.commandReceipts <+: t.commandReceipts
  referenced : ∀ e ∈ t.audit, Referenced t e
  recognised : ledgerCut limits A E s = false → ∀ id ≠ "", wasApplied s id = true →
    wasApplied t id = true

/-- **Compaction keeps the memory of commands and the workspace**, for a state whose events name
    its activities. -/
theorem compactWorkspaceHistory_compacted (s : WorkspaceState) (limits : HistoryRetentionLimits)
    (A E : List String) (hs : ∀ e ∈ s.audit, Referenced s e)
    (hprotected : ∀ e ∈ s.audit, e.id ∈ E → ∀ id ∈ e.targetActivityIds, id ∈ A) :
    Compacted limits A E s (compactWorkspaceHistory s limits A E) := by
  have h := compactWorkspaceHistory_compacts s limits A E
  exact {
    records := compact_records s limits A E
    activities := fun a ha hA => compact_activity ha hA limits
    audit := fun e he hE => (h.event he hE (hprotected e he hE) (hs e he)).1
    order := h.inOrder
    ledger := h.ledger
    referenced := h.referenced hs
    recognised := fun hcut id hid hs => h.recognised hcut hid hs }

end Compaction

/-! ## 5. States compaction meets -/

/-- An activity without patches. -/
def plainActivity (id commandId : String) : ActivityRecord where
  actorId := "user"
  commandId := commandId
  id := id
  label := "Renamed item"
  patches := []
  status := .applied
  subjectIds := []
  timestamp := "2024-01-02T00:00:00.000Z"
  undoneAt := none

/-- An undo of the activities. -/
def plainUndo (id : String) (targetActivityIds : List String) : AuditEvent where
  actorId := "user"
  id := id
  label := "Undid 1 change"
  targetActivityIds := targetActivityIds
  timestamp := "2024-01-03T00:00:00.000Z"
  type := .undo

/-- Limits nothing exceeds but the number of activities. -/
def activityLimits (activities commandReceipts : Nat) : HistoryRetentionLimits where
  activities := activities
  activityPatches := 100
  auditEvents := 100
  commandReceipts := commandReceipts
  serializedBytes := 100000

/-- Two commands, and the undo of the first one. -/
def undoneState : WorkspaceState :=
  { firstState with
    activities := [plainActivity "a1" "c1", plainActivity "a2" "c2"]
    audit := [plainUndo "audit_c3" ["a1"]] }

/-- The first activity goes with its event, and the commands of both are remembered. -/
theorem undoneState_compacted :
    @Compacted asciiHost (activityLimits 1 10) ["a2"] [] undoneState
        (@compactWorkspaceHistory asciiHost undoneState (activityLimits 1 10) ["a2"] []) ∧
      (@compactWorkspaceHistory asciiHost undoneState (activityLimits 1 10)
        ["a2"] []).commandReceipts = ["c1", "c3"] := by
  refine ⟨@compactWorkspaceHistory_compacted asciiHost undoneState (activityLimits 1 10) ["a2"] []
    ?_ (fun _ _ h => absurd h List.not_mem_nil), by decide +kernel⟩
  simp [undoneState, Referenced, plainUndo, plainActivity]

/-- An event that names an activity the state does not have. -/
def danglingAudit : WorkspaceState := { firstState with audit := [plainUndo "audit_c1" ["gone"]] }

/-- An event that names nothing, and an activity. -/
def idleState : WorkspaceState :=
  { firstState with activities := [plainActivity "a1" "c1"], audit := [plainUndo "audit_c2" []] }

/-- The activity of a command without a name. -/
def namelessState : WorkspaceState := { firstState with activities := [plainActivity "a1" ""] }

/-- A ledger that knows the command of an activity already. -/
def repeatedState : WorkspaceState :=
  { firstState with
    activities := [plainActivity "a1" "c1"]
    commandReceipts := ["c1", "c2", "c3"] }

/-- An event that dangles stays so; an event that names nothing goes although it is protected; a
    command without a name is forgotten; and a cut ledger takes the command it lost as its
    newest. -/
theorem compaction_loses :
    (∃ e ∈ (@compactWorkspaceHistory asciiHost danglingAudit (activityLimits 1 10) [] []).audit,
        ∃ id ∈ e.targetActivityIds, id ∉ (@compactWorkspaceHistory asciiHost danglingAudit
          (activityLimits 1 10) [] []).activities.map (·.id)) ∧
      (∃ e ∈ idleState.audit, e.id ∈ ["audit_c2"] ∧ e.targetActivityIds = [] ∧
        e ∉ (@compactWorkspaceHistory asciiHost idleState (activityLimits 0 10)
          [] ["audit_c2"]).audit) ∧
      (@ledgerCut asciiHost (activityLimits 0 10) [] [] namelessState = false ∧
        wasApplied namelessState "" = true ∧
        wasApplied (@compactWorkspaceHistory asciiHost namelessState (activityLimits 0 10)
          [] []) "" = false) ∧
      (repeatedState.commandReceipts = ["c1", "c2", "c3"] ∧
        (@compactWorkspaceHistory asciiHost repeatedState (activityLimits 0 2)
          [] []).commandReceipts = ["c3", "c1"]) := by
  decide +kernel

end Stowplan
