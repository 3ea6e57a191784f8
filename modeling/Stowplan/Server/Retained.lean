/-
  File:      Stowplan/Server/Retained.lean
  Subject:   THE RETENTION LIMITS ARE MET WITH THE LEAST LOSS.

  Compaction works in stages: the oldest unprotected activities go until the counts are met, then
  the oldest unprotected events; and where the snapshot is still too large, events, activities
  and receipts go one kind after the other, the shortest prefix of a kind that is enough.

  * `history`: the states that accepted commands and compactions produce;
  * `history_ledgered`: they tell of each command once, which is what makes the size monotone;
  * `CountStage`, `ByteStage`: what each of the two halves of compaction removes;
  * `compaction_leastLoss`.
-/
import Stowplan.Server.Shrinking
import Stowplan.Domain.Revision

namespace Stowplan

open JsValue

/-! ## 1. Removals keep the ledger -/

section Kept

variable {s t : WorkspaceState} {removed : List String} {limit : Nat}

theorem lastOf_sublist (limit : Nat) (l : List String) : (lastOf limit l).Sublist l :=
  List.drop_sublist _ _

theorem lastOf_length (limit : Nat) (l : List String) : (lastOf limit l).length ≤ limit := by
  unfold lastOf
  rw [List.length_drop]
  omega

theorem commandIdForAudit_congr {e e' : AuditEvent} (h : e'.id = e.id) :
    commandIdForAudit e' = commandIdForAudit e := by
  unfold commandIdForAudit
  rw [h]

/-- The commands of the events that stay. -/
theorem filterMap_eventWithout (retained : List String) (audit : List AuditEvent) :
    (audit.filterMap (eventWithout retained)).filterMap commandIdForAudit =
      (audit.filter fun e => !(eventWithout retained e).isNone).filterMap commandIdForAudit := by
  induction audit with
  | nil => rfl
  | cons e audit ih =>
      cases hsome : eventWithout retained e with
      | none => simpa [hsome] using ih
      | some e' =>
          have hid := commandIdForAudit_congr (eventWithout_id hsome)
          simp [hsome, hid, List.filterMap_cons, ih]

/-- A ledger that tells of the same commands, or of fewer. -/
theorem Ledgered.fewer (h : Ledgered s) {receipts : List String}
    (hsub : receipts.Sublist s.commandReceipts) :
    Ledgered { s with commandReceipts := receipts } where
  activities := h.activities
  audit := h.audit
  commands := (hsub.append (List.Sublist.refl _)).nodup h.commands
  referenced := h.referenced
  labels := h.labels

/-- **Without activities the commands are told of once.** -/
theorem Ledgered.afterActivities (h : Ledgered s) (removed : List String) (limit : Nat) :
    Ledgered (Stowplan.withoutActivities s removed limit) := by
  cases hr : removed.isEmpty with
  | true =>
      obtain rfl := List.isEmpty_iff.mp hr
      exact h
  | false =>
      have hreferenced : ∀ e ∈ (Stowplan.withoutActivities s removed limit).audit,
          Referenced (Stowplan.withoutActivities s removed limit) e := by
        rw [withoutActivities_eq hr]
        exact fun e he => normalizeAudit_referenced he
      rw [h.withoutSome hr] at hreferenced ⊢
      refine ⟨fun a ha => h.activities a (List.mem_filter.mp ha).1, fun e he => ?_, ?_, hreferenced,
        fun e he => ?_⟩
      · obtain ⟨e', he', hsome⟩ := List.mem_filterMap.mp he
        rw [commandIdForAudit_congr (eventWithout_id hsome)]
        exact h.audit e' he'
      · -- the commands that went have moved to the receipts
        refine ((lastOf_sublist _ _).append (List.Sublist.refl _)).nodup ?_
        have hactivities := (List.filter_append_perm (fun a => removed.contains a.id)
          s.activities).map (·.commandId)
        have hevents := (List.filter_append_perm
          (fun e => (eventWithout (retainedIds s removed) e).isNone) s.audit).filterMap
            commandIdForAudit
        rw [List.map_append] at hactivities
        rw [List.filterMap_append] at hevents
        refine (List.Perm.nodup_iff ?_).mp h.commands
        refine List.perm_iff_count.mpr fun x => ?_
        have hcount := List.perm_iff_count.mp hactivities x
        have hcount' := List.perm_iff_count.mp hevents x
        unfold goneCommands
        rw [filterMap_eventWithout]
        simp only [List.count_append] at hcount hcount' ⊢
        omega
      · obtain ⟨e', he', hsome⟩ := List.mem_filterMap.mp he
        obtain ⟨rfl, -⟩ := eventWithout_some hsome (h.labels e' he')
        rfl

/-- **Without events the commands are told of once.** -/
theorem Ledgered.afterAudits (h : Ledgered s) (removed : List String) (limit : Nat) :
    Ledgered (Stowplan.withoutAudits s removed limit) := by
  cases hr : removed.isEmpty with
  | true =>
      obtain rfl := List.isEmpty_iff.mp hr
      exact h
  | false =>
      rw [h.withoutEvents hr]
      refine ⟨h.activities, fun e he => h.audit e (List.mem_filter.mp he).1, ?_,
        fun e he => h.referenced e (List.mem_filter.mp he).1,
        fun e he => h.labels e (List.mem_filter.mp he).1⟩
      refine ((lastOf_sublist _ _).append (List.Sublist.refl _)).nodup ?_
      have hevents := (List.filter_append_perm (fun e => removed.contains e.id) s.audit).filterMap
        commandIdForAudit
      rw [List.filterMap_append] at hevents
      refine (List.Perm.nodup_iff ?_).mp h.commands
      refine List.perm_iff_count.mpr fun x => ?_
      have hcount := List.perm_iff_count.mp hevents x
      unfold goneEvents
      simp only [List.count_append] at hcount ⊢
      omega

/-- **A chain of removals keeps the ledger.** -/
theorem Compacts.ledgered {A E : List String} {cut : Bool} (h : Compacts limit A E s cut t)
    (hs : Ledgered s) : Ledgered t := by
  induction h with
  | done => exact hs
  | receipts h ih => exact ih.fewer (lastOf_sublist _ _)
  | activities h hout ih => exact ih.afterActivities _ _
  | audits h hout ih => exact ih.afterAudits _ _
  | trim h hin ih =>
      rw [withoutReceipts_receipts]
      exact ih.fewer List.filter_sublist

end Kept

/-! ## 2. Accepted commands keep the ledger -/

section Accepted

variable [Host] {s : WorkspaceState} {env : CommandEnvelope} {r : CommandResult}

omit [Host] in
theorem not_wasApplied {id : String} (h : wasApplied s id = false) :
    id ∉ s.commandReceipts ++ (s.activities.map (·.commandId) ++
      s.audit.filterMap commandIdForAudit) := by
  intro hin
  refine Bool.false_ne_true (h.symm.trans (wasApplied_iff.mpr ?_))
  rcases List.mem_append.mp hin with hin | hin
  · exact .inl hin
  · rcases List.mem_append.mp hin with hin | hin
    · obtain ⟨a, ha, hid⟩ := List.mem_map.mp hin
      exact .inr (.inl ⟨a, ha, hid⟩)
    · obtain ⟨e, he, hid⟩ := List.mem_filterMap.mp hin
      exact .inr (.inr ⟨e, he, commandIdForAudit_some hid⟩)

omit [Host] in
/-- The label of a replay is the one that compaction writes. -/
theorem auditLabel_replay (type : AuditType) (n : Nat) {e : AuditEvent} (h : e.type = type) :
    (if type.direction = .undo then "Undid " else "Reapplied ") ++ s!"{n} change{plural n}" =
      auditLabel e n := by
  unfold auditLabel plural
  rw [h]
  apply String.toList_inj.mp
  cases type <;> simp [AuditType.direction, toString]

omit [Host] in
theorem historyOf_map {β : Type} {w : WorkspaceState} (h : historyOf w.activities =
    historyOf s.activities) (f : String × String × List FieldPatch → β) :
    (w.activities.map fun a => f (a.id, a.commandId, a.patches)) =
      s.activities.map fun a => f (a.id, a.commandId, a.patches) := by
  have hmap := congrArg (List.map f) h
  unfold historyOf at hmap
  rw [List.map_map, List.map_map] at hmap
  exact hmap

omit [Host] in
/-- A change leaves an activity for its command. -/
theorem ledgered_recorded {t : WorkspaceState} {id : String} {a : ActivityRecord}
    (hs : Ledgered s) (hid : id ≠ "")
    (hnew : id ∉ s.commandReceipts ++ (s.activities.map (·.commandId) ++
      s.audit.filterMap commandIdForAudit))
    (hactivities : t.activities = s.activities ++ [a]) (haudit : t.audit = s.audit)
    (hreceipts : t.commandReceipts = s.commandReceipts) (hcommand : a.commandId = id)
    (hform : a.id = "activity_" ++ id) : Ledgered t := by
  refine ⟨fun b hb => ?_, fun e he => hs.audit e (haudit ▸ he), ?_, fun e he => ?_,
    fun e he => hs.labels e (haudit ▸ he)⟩
  · rw [hactivities] at hb
    rcases List.mem_append.mp hb with hb | hb
    · exact hs.activities b hb
    · rw [List.mem_singleton.mp hb, hcommand]
      exact ⟨hform, hid⟩
  · refine (List.Perm.nodup_iff ?_).mp (List.nodup_cons.mpr ⟨hnew, hs.commands⟩)
    refine List.perm_iff_count.mpr fun x => ?_
    rw [hactivities, haudit, hreceipts, List.map_append, List.map_singleton, hcommand]
    simp only [List.count_append, List.count_cons, List.count_nil]
    omega
  · obtain ⟨hne, hall⟩ := hs.referenced e (haudit ▸ he)
    refine ⟨hne, fun id hid => ?_⟩
    rw [hactivities, List.map_append]
    exact List.mem_append_left _ (hall id hid)

omit [Host] in
/-- A replay leaves an event for its command. -/
theorem ledgered_replayed {t w : WorkspaceState} {id : String} {e : AuditEvent} (hs : Ledgered s)
    (hw : SameHistory s w) (hid : id ≠ "")
    (hnew : id ∉ s.commandReceipts ++ (s.activities.map (·.commandId) ++
      s.audit.filterMap commandIdForAudit))
    (hactivities : t.activities = w.activities) (haudit : t.audit = w.audit ++ [e])
    (hreceipts : t.commandReceipts = w.commandReceipts) (he : e.id = "audit_" ++ id)
    (hlabel : e.label = auditLabel e e.targetActivityIds.length)
    (htargets : e.targetActivityIds ≠ [] ∧
      ∀ id ∈ e.targetActivityIds, id ∈ s.activities.map (·.id)) : Ledgered t := by
  have hcommand := commandIdForAudit_of_id he hid
  have hids : t.activities.map (·.id) = s.activities.map (·.id) := by
    rw [hactivities]
    exact historyOf_map hw.activities (·.1)
  have hcommands : t.activities.map (·.commandId) = s.activities.map (·.commandId) := by
    rw [hactivities]
    exact historyOf_map hw.activities (·.2.1)
  have hmem : ∀ e' ∈ t.audit, e' ∈ s.audit ∨ e' = e := by
    intro e' he'
    rw [haudit, hw.audit] at he'
    exact (List.mem_append.mp he').imp_right List.mem_singleton.mp
  refine ⟨fun a ha => ?_, fun e' he' => ?_, ?_, fun e' he' => ?_, fun e' he' => ?_⟩
  · have hin : (a.id, a.commandId, a.patches) ∈ historyOf s.activities := by
      rw [← hw.activities, ← hactivities]
      exact List.mem_map_of_mem ha
    obtain ⟨b, hb, hab⟩ := List.mem_map.mp hin
    obtain ⟨hform, hne⟩ := hs.activities b hb
    have hsame : b.id = a.id := congrArg (·.1) hab
    have hcommand : b.commandId = a.commandId := congrArg (·.2.1) hab
    exact ⟨hsame ▸ hcommand ▸ hform, hcommand ▸ hne⟩
  · rcases hmem e' he' with he' | rfl
    · exact hs.audit e' he'
    · rw [hcommand]
      rfl
  · refine (List.Perm.nodup_iff ?_).mp (List.nodup_cons.mpr ⟨hnew, hs.commands⟩)
    refine List.perm_iff_count.mpr fun x => ?_
    rw [hcommands, hreceipts, haudit, hw.audit, hw.receipts, List.filterMap_append,
      List.filterMap_cons_some hcommand]
    simp only [List.count_append, List.count_cons, List.filterMap_nil, List.count_nil]
    omega
  · unfold Referenced
    rw [hids]
    rcases hmem e' he' with he' | rfl
    · exact hs.referenced e' he'
    · exact htargets
  · rcases hmem e' he' with he' | rfl
    · exact hs.labels e' he'
    · exact hlabel

/-- **An accepted command that was not met before** is told of once. -/
theorem applyCommand_ledgered (h : applyCommand s env = .ok r) (hnew : wasApplied s env.id = false)
    (hs : Ledgered s) : Ledgered r.state := by
  have hnotin := not_wasApplied hnew
  have hid := applyCommand_id h
  obtain ⟨hcheck, ⟨-, h⟩ | ⟨-, type, as, hne, hmem, h⟩⟩ := applyCommand_ok h
  · simp only [applyNormalCommand, result_bind_ok, result_pure_ok] at h
    obtain ⟨change, -, t, ht, rfl⟩ := h
    obtain ⟨hactivities, haudit, hreceipts⟩ := applyPatches_unrecorded ht
    refine ledgered_recorded (a := activityOf (normalizeCommandEnvelope env) change) hs hid hnotin
      ?_ haudit hreceipts rfl ?_
    · show t.activities ++ [_] = _
      rw [hactivities]
    · show s!"activity_{env.id}" = _
      simp [toString]
  · obtain ⟨w, hw, -⟩ := applyHistoryAction_ok h hmem
    simp only [applyHistoryAction, result_bind_ok] at h
    obtain ⟨_, -, w', hw', _, -, h⟩ := h
    obtain rfl : w = w' := Except.ok.inj (hw.replay.symm.trans hw')
    split at h
    · simp at h
    · rw [result_pure_ok] at h
      subst h
      have hhistory := (replayActivities_history hw.replay).1
      refine ledgered_replayed hs hhistory hid hnotin rfl rfl rfl ?_ ?_ ⟨?_, fun id hin => ?_⟩
      · show s!"audit_{env.id}" = _
        simp [toString]
      · show _ = auditLabel _ (as.map (·.id)).length
        rw [List.length_map]
        exact auditLabel_replay type as.length rfl
      · simpa using hne
      · obtain ⟨a, ha, rfl⟩ := List.mem_map.mp hin
        exact List.mem_map_of_mem (hmem a ha)

/-! ## 3. The states of a history -/

/-- A command that is accepted, or a compaction. -/
inductive HistoryAction where
  | accept (envelope : CommandEnvelope)
  | compact (limits : HistoryRetentionLimits) (protectedActivityIds protectedAuditIds : List String)

/-- What accepted commands and compactions make of an empty workspace. A command that the state
    tells of already is not accepted again, `commandWasApplied`. -/
def history : Machine WorkspaceState HistoryAction where
  init s := ∃ uuid name timestamp, s = createEmptyState uuid name timestamp
  step s action t := match action with
    | .accept envelope => wasApplied s envelope.id = false ∧
        ∃ r, applyCommand s envelope = .ok r ∧ r.state = t
    | .compact limits A E => compactWorkspaceHistory s limits A E = t

/-- **Each command is told of once**, in every state of a history. -/
theorem history_ledgered (h : history.Reachable s) : Ledgered s := by
  refine h.invariant (fun s hs => ?_) (fun s action t hs hstep => ?_)
  · obtain ⟨uuid, name, timestamp, rfl⟩ := hs
    exact ⟨nofun, nofun, List.nodup_nil, nofun, nofun⟩
  · cases action with
    | accept envelope =>
        obtain ⟨hnew, r, hr, rfl⟩ := hstep
        exact applyCommand_ledgered hr hnew hs
    | compact limits A E =>
        cases hstep
        exact (compactWorkspaceHistory_compacts _ _ _ _).ledgered hs

end Accepted

/-! ## 4. The stage of the counts -/

section Counts

variable {s : WorkspaceState} {limits : HistoryRetentionLimits} {A E : List String}

/-- The activities a compaction may drop. -/
def unprotectedActivities (protectedActivityIds : List String) (s : WorkspaceState) :
    List ActivityRecord := s.activities.filter fun a => !protectedActivityIds.contains a.id

/-- The events a compaction may drop. -/
def unprotectedAudits (protectedAuditIds : List String) (s : WorkspaceState) : List AuditEvent :=
  s.audit.filter fun e => !protectedAuditIds.contains e.id

/-- The activities but for the named ones. -/
def keptActivities (s : WorkspaceState) (removed : List ActivityRecord) : List ActivityRecord :=
  s.activities.filter fun a => !(removed.map (·.id)).contains a.id

/-- The events but for some of them. -/
def keptAudits (s : WorkspaceState) (removed : List AuditEvent) : List AuditEvent :=
  s.audit.filter fun e => !(removed.map (·.id)).contains e.id

/-- The activities are too many, or their patches. -/
def TooMany (limits : HistoryRetentionLimits) (activities : List ActivityRecord) : Prop :=
  limits.activities < activities.length ∨
    limits.activityPatches < (activities.map (·.patches.length)).sum

/-- The state after the `k` oldest unprotected activities went. -/
def countedActivities (limits : HistoryRetentionLimits) (A : List String) (s : WorkspaceState)
    (k : Nat) : WorkspaceState :=
  withoutActivities (withCommandReceipts s [] limits.commandReceipts)
    (((unprotectedActivities A s).take k).map (·.id)) limits.commandReceipts

/-- The state after the `m` oldest unprotected events went as well. -/
def countedState (limits : HistoryRetentionLimits) (A E : List String) (s : WorkspaceState)
    (k m : Nat) : WorkspaceState :=
  withoutAudits (countedActivities limits A s k)
    (((unprotectedAudits E (countedActivities limits A s k)).take m).map (·.id))
    limits.commandReceipts

/-- **What goes for the counts**: the `k` oldest unprotected activities and the `m` oldest
    unprotected events, each as few as make the counts fit, or all of them. -/
structure CountStage (limits : HistoryRetentionLimits) (A E : List String) (s : WorkspaceState)
    (k m : Nat) : Prop where
  activities : k ≤ (unprotectedActivities A s).length
  needed : ∀ j < k, TooMany limits (keptActivities s ((unprotectedActivities A s).take j))
  enough : ¬ TooMany limits (keptActivities s ((unprotectedActivities A s).take k)) ∨
    k = (unprotectedActivities A s).length
  audits : m ≤ (unprotectedAudits E (countedActivities limits A s k)).length
  auditsNeeded : ∀ j < m, limits.auditEvents < (keptAudits (countedActivities limits A s k)
    ((unprotectedAudits E (countedActivities limits A s k)).take j)).length
  auditsEnough : (keptAudits (countedActivities limits A s k) ((unprotectedAudits E
      (countedActivities limits A s k)).take m)).length ≤ limits.auditEvents ∨
    m = (unprotectedAudits E (countedActivities limits A s k)).length

theorem append_injective (p : String) : Function.Injective (p ++ ·) := by
  intro x y h
  have hlist := congrArg String.toList h
  simp only [String.toList_append, List.append_cancel_left_eq] at hlist
  exact String.toList_inj.mp hlist

/-- No two activities have one identifier. -/
theorem Ledgered.activityIds (h : Ledgered s) : (s.activities.map (·.id)).Nodup := by
  have hform : s.activities.map (·.id) = (s.activities.map (·.commandId)).map ("activity_" ++ ·) := by
    rw [List.map_map]
    exact List.map_congr_left fun a ha => (h.activities a ha).1
  rw [hform]
  exact (List.nodup_append.mp (List.nodup_append.mp h.commands).2.1).1.map
    (append_injective _)

/-- No two events have one identifier. -/
theorem Ledgered.auditIds (h : Ledgered s) : (s.audit.map (·.id)).Nodup := by
  have hform : ∀ audit : List AuditEvent, (∀ e ∈ audit, (commandIdForAudit e).isSome = true) →
      audit.map (·.id) = (audit.filterMap commandIdForAudit).map ("audit_" ++ ·) := by
    intro audit hall
    induction audit with
    | nil => rfl
    | cons e audit ih =>
        obtain ⟨x, hx⟩ := Option.isSome_iff_exists.mp (hall e List.mem_cons_self)
        rw [List.map_cons, List.filterMap_cons_some hx, List.map_cons, commandIdForAudit_some hx,
          ih fun e he => hall e (List.mem_cons_of_mem _ he)]
  rw [hform _ h.audit]
  exact (List.nodup_append.mp (List.nodup_append.mp h.commands).2.1).2.1.map
    (append_injective _)

/-- The records with the keys of some of them are these. -/
theorem filter_keys {α : Type} {key : α → String} {l l' : List α} (h : l'.Sublist l)
    (hnodup : (l.map key).Nodup) :
    (l.filter fun a => (l'.map key).contains (key a)) = l' := by
  induction h with
  | slnil => rfl
  | @cons l' l a h ih =>
      rw [List.map_cons, List.nodup_cons] at hnodup
      have hout : (l'.map key).contains (key a) = false := by
        rw [Bool.eq_false_iff, ne_eq, List.contains_iff_mem]
        exact fun hin => hnodup.1 ((h.map key).subset hin)
      rw [List.filter_cons_of_neg (by rw [hout]; exact Bool.false_ne_true)]
      exact ih hnodup.2
  | @cons_cons l' l a h ih =>
      rw [List.map_cons, List.nodup_cons] at hnodup
      have hcongr : (l.filter fun b => ((a :: l').map key).contains (key b)) =
          l.filter fun b => (l'.map key).contains (key b) := by
        refine List.filter_congr fun b hb => ?_
        have hne : key b ≠ key a := fun heq => hnodup.1 (heq ▸ List.mem_map_of_mem hb)
        rw [List.map_cons, List.contains_cons, beq_eq_false_iff_ne.mpr hne, Bool.false_or]
      rw [List.filter_cons_of_pos (by simp), hcongr, ih hnodup.2]

/-- What is kept and what is removed make up the whole. -/
theorem sum_kept {α : Type} {key : α → String} {l l' : List α} (h : l'.Sublist l)
    (hnodup : (l.map key).Nodup) (f : α → Nat) :
    (l.map f).sum = (l'.map f).sum +
      ((l.filter fun a => !(l'.map key).contains (key a)).map f).sum := by
  have hsplit := sum_split (fun a => (l'.map key).contains (key a)) f f l
  rw [filter_keys h hnodup] at hsplit
  simpa using hsplit

theorem length_kept {α : Type} {key : α → String} {l l' : List α} (h : l'.Sublist l)
    (hnodup : (l.map key).Nodup) :
    l.length = l'.length + (l.filter fun a => !(l'.map key).contains (key a)).length := by
  have hsum := sum_kept h hnodup fun _ => 1
  simpa using hsum

/-- **The loop over the activities**: the oldest unprotected ones go, as long as the counts are
    too large. -/
theorem excessActivities_oldest (limits : HistoryRetentionLimits) (A : List String) (n p : Nat)
    (activities : List ActivityRecord) :
    ∃ k ≤ (activities.filter fun a => !A.contains a.id).length,
      excessActivities limits A n p activities =
        ((activities.filter fun a => !A.contains a.id).take k).map (·.id) ∧
      (∀ j < k, limits.activities < n - j ∨ limits.activityPatches < p -
        (((activities.filter fun a => !A.contains a.id).take j).map (·.patches.length)).sum) ∧
      ((n - k ≤ limits.activities ∧ p - (((activities.filter fun a =>
          !A.contains a.id).take k).map (·.patches.length)).sum ≤ limits.activityPatches) ∨
        k = (activities.filter fun a => !A.contains a.id).length) := by
  induction activities generalizing n p with
  | nil => exact ⟨0, le_rfl, rfl, nofun, .inr rfl⟩
  | cons a activities ih =>
      unfold excessActivities
      by_cases hfits : (decide (n ≤ limits.activities) && decide (p ≤ limits.activityPatches)) = true
      · rw [if_pos hfits]
        rw [Bool.and_eq_true, decide_eq_true_eq, decide_eq_true_eq] at hfits
        exact ⟨0, Nat.zero_le _, rfl, nofun, .inl (by simpa using hfits)⟩
      · rw [if_neg hfits]
        rw [Bool.and_eq_true, decide_eq_true_eq, decide_eq_true_eq] at hfits
        by_cases hA : A.contains a.id = true
        · rw [if_pos hA, List.filter_cons_of_neg (by rw [hA]; exact Bool.false_ne_true)]
          exact ih n p
        · rw [if_neg hA, List.filter_cons_of_pos (by simpa using hA)]
          obtain ⟨k, hk, heq, hneeded, henough⟩ := ih (n - 1) (p - a.patches.length)
          refine ⟨k + 1, Nat.succ_le_succ hk, by rw [heq]; rfl, fun j hj => ?_, ?_⟩
          · cases j with
            | zero =>
                rw [List.take_zero, List.map_nil, List.sum_nil]
                omega
            | succ j =>
                have hj' := hneeded j (by omega)
                rw [List.take_succ_cons, List.map_cons, List.sum_cons]
                omega
          · rw [List.take_succ_cons, List.map_cons, List.sum_cons, List.length_cons]
            omega

theorem tooMany_iff (h : Ledgered s) (j : Nat) :
    TooMany limits (keptActivities s ((unprotectedActivities A s).take j)) ↔
      limits.activities < s.activities.length - ((unprotectedActivities A s).take j).length ∨
        limits.activityPatches < (s.activities.map (·.patches.length)).sum -
          (((unprotectedActivities A s).take j).map (·.patches.length)).sum := by
  have hsub : ((unprotectedActivities A s).take j).Sublist s.activities :=
    (List.take_sublist _ _).trans List.filter_sublist
  have hlen := length_kept hsub h.activityIds
  have hsum := sum_kept hsub h.activityIds (·.patches.length)
  unfold TooMany keptActivities
  omega

theorem Ledgered.countedActivities (h : Ledgered s) (limits : HistoryRetentionLimits)
    (A : List String) (k : Nat) : Ledgered (countedActivities limits A s k) :=
  (h.fewer (lastOf_sublist limits.commandReceipts _)).afterActivities _ _

variable [Host]

/-- **Compaction begins with the counts.** -/
theorem compaction_counts (h : Ledgered s) (limits : HistoryRetentionLimits)
    (A E : List String) : ∃ k m, CountStage limits A E s k m ∧
    compactWorkspaceHistory s limits A E = compactBytes (countedState limits A E s k m) limits A E := by
  obtain ⟨k, hk, heq, hneeded, henough⟩ := excessActivities_oldest limits A s.activities.length (s.activities.map (·.patches.length)).sum s.activities
  change k ≤ (unprotectedActivities A s).length at hk
  have hsecond := h.countedActivities limits A k
  have hstate : withoutActivities (withCommandReceipts s [] limits.commandReceipts)
      (excessActivities limits A s.activities.length (s.activities.map (·.patches.length)).sum
        s.activities) limits.commandReceipts = countedActivities limits A s k := by
    rw [heq]
    rfl
  have hkept : ∀ j, (countedActivities limits A s k).audit.length =
      ((unprotectedAudits E (countedActivities limits A s k)).take j).length +
        (keptAudits (countedActivities limits A s k)
          ((unprotectedAudits E (countedActivities limits A s k)).take j)).length := fun j =>
    length_kept ((List.take_sublist _ _).trans List.filter_sublist) hsecond.auditIds
  refine ⟨k, min ((countedActivities limits A s k).audit.length - limits.auditEvents)
    (unprotectedAudits E (countedActivities limits A s k)).length, ⟨hk, fun j hj => ?_, ?_,
    Nat.min_le_right _ _, fun j hj => ?_, ?_⟩, ?_⟩
  · rw [tooMany_iff h, List.length_take, Nat.min_eq_left (by omega)]
    exact hneeded j hj
  · rw [tooMany_iff h, List.length_take, Nat.min_eq_left hk]
    unfold unprotectedActivities
    omega
  · have hj' := hkept j
    rw [List.length_take] at hj'
    omega
  · have hm := hkept (min ((countedActivities limits A s k).audit.length - limits.auditEvents)
      (unprotectedAudits E (countedActivities limits A s k)).length)
    rw [List.length_take] at hm
    omega
  · unfold compactWorkspaceHistory countedState
    dsimp only
    have htake : (unprotectedAudits E (countedActivities limits A s k)).take
        (min ((countedActivities limits A s k).audit.length - limits.auditEvents)
          (unprotectedAudits E (countedActivities limits A s k)).length) =
        (unprotectedAudits E (countedActivities limits A s k)).take
          ((countedActivities limits A s k).audit.length - limits.auditEvents) := by
      rcases Nat.le_total ((countedActivities limits A s k).audit.length - limits.auditEvents)
        (unprotectedAudits E (countedActivities limits A s k)).length with hle | hle
      · rw [Nat.min_eq_left hle]
      · rw [Nat.min_eq_right hle, List.take_length, List.take_of_length_le hle]
    rw [htake, ← hstate]
    rfl

end Counts

/-! ## 5. The stage of the bytes -/

section Bytes

variable [Host] {limits : HistoryRetentionLimits} {A E : List String} {s : WorkspaceState}

/-- The state without the unprotected events. -/
def strippedAudits (limits : HistoryRetentionLimits) (E : List String) (s : WorkspaceState) :
    WorkspaceState :=
  withoutAudits s ((unprotectedAudits E s).map (·.id)) limits.commandReceipts

/-- Nor with the unprotected activities. -/
def strippedActivities (limits : HistoryRetentionLimits) (A E : List String) (s : WorkspaceState) :
    WorkspaceState :=
  withoutActivities (strippedAudits limits E s)
    ((unprotectedActivities A (strippedAudits limits E s)).map (·.id)) limits.commandReceipts

/-- Nor with any receipt but the newest. -/
def stripped (limits : HistoryRetentionLimits) (A E : List String) (s : WorkspaceState) :
    WorkspaceState :=
  withoutReceipts (strippedActivities limits A E s)
    (strippedActivities limits A E s).commandReceipts.dropLast

/-- **What goes for the bytes**: nothing where the state fits; else the shortest prefix of the
    unprotected events that is enough, or all of them and the shortest prefix of the unprotected
    activities, or these as well and the shortest prefix of the receipts but the newest; and
    where nothing is enough, all of it. -/
inductive ByteStage (limits : HistoryRetentionLimits) (A E : List String) (s : WorkspaceState) :
    WorkspaceState → Prop where
  | fits (h : serializedBytes (encode s) ≤ limits.serializedBytes) : ByteStage limits A E s s
  | audits (k : Nat) (h : ShortestPrefix ((unprotectedAudits E s).map (·.id))
        (fun removed => withoutAudits s removed limits.commandReceipts) limits.serializedBytes k) :
      ByteStage limits A E s
        (withoutAudits s (((unprotectedAudits E s).map (·.id)).take k) limits.commandReceipts)
  | activities (k : Nat) (h : ShortestPrefix
        ((unprotectedActivities A (strippedAudits limits E s)).map (·.id))
        (fun removed => withoutActivities (strippedAudits limits E s) removed
          limits.commandReceipts) limits.serializedBytes k) :
      ByteStage limits A E s (withoutActivities (strippedAudits limits E s)
        (((unprotectedActivities A (strippedAudits limits E s)).map (·.id)).take k)
        limits.commandReceipts)
  | receipts (k : Nat) (h : ShortestPrefix
        (strippedActivities limits A E s).commandReceipts.dropLast
        (withoutReceipts (strippedActivities limits A E s)) limits.serializedBytes k) :
      ByteStage limits A E s (withoutReceipts (strippedActivities limits A E s)
        ((strippedActivities limits A E s).commandReceipts.dropLast.take k))
  | everything (h : limits.serializedBytes < serializedBytes (encode (stripped limits A E s))) :
      ByteStage limits A E s (stripped limits A E s)

theorem compactReceiptBytes_stage
    (hover : limits.serializedBytes < serializedBytes (encode (strippedActivities limits A E s))) :
    ByteStage limits A E s
      (compactReceiptBytes (strippedActivities limits A E s) limits.serializedBytes) := by
  unfold compactReceiptBytes
  dsimp only
  by_cases hnone : (strippedActivities limits A E s).commandReceipts.dropLast.isEmpty = true
  · rw [if_pos hnone]
    have hsame : stripped limits A E s = strippedActivities limits A E s := by
      unfold stripped withoutReceipts
      rw [if_pos hnone]
    have hstage : ByteStage limits A E s (stripped limits A E s) := .everything (hsame ▸ hover)
    exact hsame ▸ hstage
  · rw [if_neg hnone]
    by_cases hall : limits.serializedBytes < serializedBytes (encode (withoutReceipts
        (strippedActivities limits A E s)
        (strippedActivities limits A E s).commandReceipts.dropLast))
    · rw [if_pos hall]
      exact .everything hall
    · rw [if_neg hall]
      exact .receipts _ (minimalRemovalCount_shortest (fun hnil => hnone (List.isEmpty_iff.mpr hnil))
        hover (Nat.le_of_not_lt hall) fun _ _ hsub => withoutReceipts_bytes _ hsub)

theorem compactActivityBytes_eq : compactActivityBytes (strippedAudits limits E s) limits A =
    if ((unprotectedActivities A (strippedAudits limits E s)).map (·.id)).isEmpty then
      compactReceiptBytes (strippedAudits limits E s) limits.serializedBytes
    else if serializedBytes (encode (strippedActivities limits A E s)) ≤ limits.serializedBytes then
      removeMinimal ((unprotectedActivities A (strippedAudits limits E s)).map (·.id))
        (fun removed => withoutActivities (strippedAudits limits E s) removed
          limits.commandReceipts) limits.serializedBytes
    else compactReceiptBytes (strippedActivities limits A E s) limits.serializedBytes := rfl

theorem compactBytes_eq : compactBytes s limits A E =
    if serializedBytes (encode s) ≤ limits.serializedBytes then s
    else if ((unprotectedAudits E s).map (·.id)).isEmpty then compactActivityBytes s limits A
    else if serializedBytes (encode (strippedAudits limits E s)) ≤ limits.serializedBytes then
      removeMinimal ((unprotectedAudits E s).map (·.id))
        (fun removed => withoutAudits s removed limits.commandReceipts) limits.serializedBytes
    else compactActivityBytes (strippedAudits limits E s) limits A := rfl

theorem compactActivityBytes_stage (h : Ledgered (strippedAudits limits E s))
    (hlimit : (strippedAudits limits E s).commandReceipts.length ≤ limits.commandReceipts)
    (hover : limits.serializedBytes < serializedBytes (encode (strippedAudits limits E s))) :
    ByteStage limits A E s (compactActivityBytes (strippedAudits limits E s) limits A) := by
  rw [compactActivityBytes_eq]
  by_cases hnone : ((unprotectedActivities A (strippedAudits limits E s)).map (·.id)).isEmpty = true
  · have hsame : strippedActivities limits A E s = strippedAudits limits E s := by
      unfold strippedActivities withoutActivities
      rw [if_pos hnone]
    rw [if_pos hnone, ← hsame]
    exact compactReceiptBytes_stage (hsame ▸ hover)
  · rw [if_neg hnone]
    by_cases hall : serializedBytes (encode (strippedActivities limits A E s)) ≤
        limits.serializedBytes
    · rw [if_pos hall]
      exact .activities _ (minimalRemovalCount_shortest
        (fun hnil => hnone (List.isEmpty_iff.mpr hnil)) hover hall
        fun _ _ hsub => h.withoutActivities_bytes hlimit hsub)
    · rw [if_neg hall]
      exact compactReceiptBytes_stage (Nat.lt_of_not_le hall)

/-- **Compaction ends with the bytes.** -/
theorem compactBytes_stage (h : Ledgered s)
    (hlimit : s.commandReceipts.length ≤ limits.commandReceipts) :
    ByteStage limits A E s (compactBytes s limits A E) := by
  have hstripped : Ledgered (strippedAudits limits E s) := h.afterAudits _ _
  have hreceipts : (strippedAudits limits E s).commandReceipts.length ≤ limits.commandReceipts := by
    unfold strippedAudits
    rw [h.withoutAudits hlimit]
    exact lastOf_length _ _
  rw [compactBytes_eq]
  by_cases hfits : serializedBytes (encode s) ≤ limits.serializedBytes
  · rw [if_pos hfits]
    exact .fits hfits
  · rw [if_neg hfits]
    have hover := Nat.lt_of_not_le hfits
    by_cases hnone : ((unprotectedAudits E s).map (·.id)).isEmpty = true
    · have hsame : strippedAudits limits E s = s := by
        unfold strippedAudits withoutAudits
        rw [if_pos hnone]
      rw [if_pos hnone]
      have hstage := compactActivityBytes_stage (A := A) hstripped hreceipts (by
        rw [hsame]
        exact hover)
      rwa [hsame] at hstage
    · rw [if_neg hnone]
      by_cases hall : serializedBytes (encode (strippedAudits limits E s)) ≤ limits.serializedBytes
      · rw [if_pos hall]
        exact .audits _ (minimalRemovalCount_shortest
          (fun hnil => hnone (List.isEmpty_iff.mpr hnil)) hover hall
          fun _ _ hsub => h.withoutAudits_bytes hlimit hsub)
      · rw [if_neg hall]
        exact compactActivityBytes_stage hstripped hreceipts (Nat.lt_of_not_le hall)

end Bytes

/-! ## 6. Compaction -/

section Compaction

variable {limits : HistoryRetentionLimits} {A E : List String} {s t u : WorkspaceState}

theorem withoutActivities_short (h : Ledgered s) (hlimit : s.commandReceipts.length ≤
    limits.commandReceipts) (removed : List String) :
    (withoutActivities s removed limits.commandReceipts).commandReceipts.length ≤
      limits.commandReceipts := by
  rw [h.withoutActivities hlimit]
  exact lastOf_length _ _

theorem withoutAudits_short (h : Ledgered s) (hlimit : s.commandReceipts.length ≤
    limits.commandReceipts) (removed : List String) :
    (withoutAudits s removed limits.commandReceipts).commandReceipts.length ≤
      limits.commandReceipts := by
  rw [h.withoutAudits hlimit]
  exact lastOf_length _ _

theorem withoutReceipts_short (hlimit : s.commandReceipts.length ≤ limits.commandReceipts)
    (removed : List String) :
    (withoutReceipts s removed).commandReceipts.length ≤ limits.commandReceipts := by
  rw [withoutReceipts_receipts]
  exact (List.length_filter_le _ _).trans hlimit

/-- What the counts leave: a state whose ledger is short. -/
theorem countedState_short (h : Ledgered s) (limits : HistoryRetentionLimits) (A E : List String)
    (k m : Nat) :
    Ledgered (countedState limits A E s k m) ∧
      (countedState limits A E s k m).commandReceipts.length ≤ limits.commandReceipts := by
  have hsecond := h.countedActivities limits A k
  have hshort : (countedActivities limits A s k).commandReceipts.length ≤
      limits.commandReceipts :=
    withoutActivities_short (h.fewer (lastOf_sublist limits.commandReceipts _)) (lastOf_length _ _) _
  exact ⟨hsecond.afterAudits _ _, withoutAudits_short hsecond hshort _⟩

theorem countedActivities_kept (h : Ledgered s) (k : Nat) :
    (countedActivities limits A s k).activities =
      keptActivities s ((unprotectedActivities A s).take k) := by
  have hfirst : Ledgered (withCommandReceipts s [] limits.commandReceipts) :=
    h.fewer (lastOf_sublist _ _)
  unfold countedActivities
  rw [hfirst.withoutActivities (lastOf_length _ _)]
  rfl

theorem withoutAudits_records (removed : List String) (limit : Nat) :
    (withoutAudits s removed limit).activities = s.activities ∧
      (withoutAudits s removed limit).audit = s.audit.filter fun e => !removed.contains e.id := by
  unfold withoutAudits
  split
  · rename_i hnone
    rw [List.isEmpty_iff.mp hnone]
    exact ⟨rfl, (List.filter_eq_self.mpr fun _ _ => rfl).symm⟩
  · exact ⟨rfl, rfl⟩

theorem inOrder_withoutActivities (s : WorkspaceState) (removed : List String) (limit : Nat) :
    InOrder s (withoutActivities s removed limit) := by
  have h : Compacts limit [] [] s _ (withoutActivities s removed limit) :=
    .activities .done fun _ _ => List.not_mem_nil
  exact h.inOrder

/-- Where all unprotected records went, protected ones are left. -/
theorem protected_of_kept {α : Type} {key : α → String} {l : List α} {P : List String} {a : α}
    (h : a ∈ l.filter fun a => !((l.filter fun a => !P.contains (key a)).map key).contains (key a)) :
    key a ∈ P := by
  obtain ⟨ha, hkept⟩ := List.mem_filter.mp h
  by_contra hout
  have hin : a ∈ l.filter fun a => !P.contains (key a) :=
    List.mem_filter.mpr ⟨ha, by simpa using hout⟩
  rw [Bool.not_eq_true', Bool.eq_false_iff, ne_eq, List.contains_iff_mem] at hkept
  exact hkept (List.mem_map_of_mem hin)

/-- The counts are met, or only what is protected is left. -/
structure CountsMet (limits : HistoryRetentionLimits) (A E : List String) (t : WorkspaceState) :
    Prop where
  activities : t.activities.length ≤ limits.activities ∨ ∀ a ∈ t.activities, a.id ∈ A
  patches : (t.activities.map (·.patches.length)).sum ≤ limits.activityPatches ∨
    ∀ a ∈ t.activities, a.id ∈ A
  audit : t.audit.length ≤ limits.auditEvents ∨ ∀ e ∈ t.audit, e.id ∈ E
  receipts : t.commandReceipts.length ≤ limits.commandReceipts

theorem CountStage.met {k m : Nat} (hc : CountStage limits A E s k m) (h : Ledgered s) :
    CountsMet limits A E (countedState limits A E s k m) := by
  have hactivities : (countedState limits A E s k m).activities =
      keptActivities s ((unprotectedActivities A s).take k) :=
    (withoutAudits_records _ _).1.trans (countedActivities_kept h k)
  have haudit : (countedState limits A E s k m).audit = keptAudits (countedActivities limits A s k)
      ((unprotectedAudits E (countedActivities limits A s k)).take m) :=
    (withoutAudits_records _ _).2
  have hprotected : k = (unprotectedActivities A s).length →
      ∀ a ∈ keptActivities s ((unprotectedActivities A s).take k), a.id ∈ A := by
    rintro rfl a ha
    rw [List.take_length] at ha
    exact protected_of_kept ha
  refine ⟨?_, ?_, ?_, (countedState_short h limits A E k m).2⟩
  · rw [hactivities]
    refine hc.enough.imp (fun hfew => ?_) hprotected
    exact Nat.le_of_not_lt fun hlt => hfew (.inl hlt)
  · rw [hactivities]
    refine hc.enough.imp (fun hfew => ?_) hprotected
    exact Nat.le_of_not_lt fun hlt => hfew (.inr hlt)
  · rw [haudit]
    refine hc.auditsEnough.imp_right ?_
    rintro rfl e he
    rw [List.take_length] at he
    exact protected_of_kept he

variable [Host]

theorem ByteStage.counted (hb : ByteStage limits A E s t) (hs : Ledgered s)
    (horder : InOrder s t) (hc : CountsMet limits A E s) : CountsMet limits A E t := by
  have hpatches := (horder.activities.map fun a => a.patches.length).sum_le_sum
    fun _ _ => Nat.zero_le _
  have hlen := horder.audit.length_le
  rw [List.length_map, List.length_map] at hlen
  have hstripped : Ledgered (strippedAudits limits E s) := hs.afterAudits _ _
  have hshort := withoutAudits_short hs hc.receipts ((unprotectedAudits E s).map (·.id))
  refine ⟨hc.activities.imp horder.activities.length_le.trans fun h a ha =>
      h a (horder.activities.subset ha), hc.patches.imp hpatches.trans fun h a ha =>
      h a (horder.activities.subset ha), hc.audit.imp hlen.trans fun h e he => ?_, ?_⟩
  · obtain ⟨e', he', hid⟩ := List.mem_map.mp (horder.audit.subset (List.mem_map_of_mem he))
    exact hid ▸ h e' he'
  · cases hb with
    | fits => exact hc.receipts
    | audits => exact withoutAudits_short hs hc.receipts _
    | activities => exact withoutActivities_short hstripped hshort _
    | receipts => exact withoutReceipts_short (withoutActivities_short hstripped hshort _) _
    | everything => exact withoutReceipts_short (withoutActivities_short hstripped hshort _) _

/-- The byte limit is met where all that may go makes it so. -/
theorem ByteStage.met (hb : ByteStage limits A E s t)
    (h : serializedBytes (encode (stripped limits A E s)) ≤ limits.serializedBytes) :
    serializedBytes (encode t) ≤ limits.serializedBytes := by
  cases hb with
  | fits h => exact h
  | audits k h => exact h.fits
  | activities k h => exact h.fits
  | receipts k h => exact h.fits
  | everything hover => exact absurd h (Nat.not_le.mpr hover)

/-- A state with nothing that may go stays as it is. -/
theorem ByteStage.unchanged (hb : ByteStage limits A E s t) (hE : unprotectedAudits E s = [])
    (hA : unprotectedActivities A s = []) (hR : s.commandReceipts.dropLast = []) : t = s := by
  have hstripped : strippedAudits limits E s = s := by
    unfold strippedAudits
    rw [hE]
    rfl
  have hstripped' : strippedActivities limits A E s = s := by
    unfold strippedActivities
    rw [hstripped, hA]
    rfl
  cases hb with
  | fits => rfl
  | audits k =>
      rw [hE, List.map_nil, List.take_nil]
      rfl
  | activities k =>
      rw [hstripped, hA, List.map_nil, List.take_nil]
      rfl
  | receipts k =>
      rw [hstripped', hR, List.take_nil]
      rfl
  | everything =>
      unfold stripped
      rw [hstripped', hR]
      rfl

omit [Host] in
theorem dropLast_newest {l : List String} (h : l.Nodup) :
    (l.filter fun id => !l.dropLast.contains id).dropLast = [] := by
  rcases List.eq_nil_or_concat l with rfl | ⟨l, x, rfl⟩
  · rfl
  · rw [List.concat_eq_append, List.dropLast_concat, List.filter_append]
    have hnone : (l.filter fun id => !l.contains id) = [] :=
      List.filter_eq_nil_iff.mpr fun id hid => by simpa using hid
    rw [hnone, List.nil_append, List.filter_cons]
    split <;> rfl

omit [Host] in
/-- All that may go is gone. -/
theorem stripped_bare (h : Ledgered s) : unprotectedAudits E (stripped limits A E s) = [] ∧
    unprotectedActivities A (stripped limits A E s) = [] ∧
    (stripped limits A E s).commandReceipts.dropLast = [] := by
  have hfirst : Ledgered (strippedAudits limits E s) := h.afterAudits _ _
  have hsecond : Ledgered (strippedActivities limits A E s) := hfirst.afterActivities _ _
  have hform : stripped limits A E s = { strippedActivities limits A E s with
      commandReceipts := (strippedActivities limits A E s).commandReceipts.filter fun id =>
        !(strippedActivities limits A E s).commandReceipts.dropLast.contains id } :=
    withoutReceipts_receipts _ _
  rw [hform]
  refine ⟨List.filter_eq_nil_iff.mpr fun e he => ?_, List.filter_eq_nil_iff.mpr fun a ha => ?_,
    dropLast_newest (List.nodup_append.mp hsecond.commands).1⟩
  · have hids : e.id ∈ (strippedAudits limits E s).audit.map (·.id) := by
      have horder : InOrder (strippedAudits limits E s) (strippedActivities limits A E s) :=
        inOrder_withoutActivities _ _ _
      exact horder.audit.subset (List.mem_map_of_mem he)
    obtain ⟨e', he', hid⟩ := List.mem_map.mp hids
    have hin : e'.id ∈ E := by
      unfold strippedAudits at he'
      rw [(withoutAudits_records _ _).2] at he'
      exact protected_of_kept he'
    simpa using hid ▸ hin
  · have hin : a.id ∈ A := by
      change a ∈ (strippedActivities limits A E s).activities at ha
      unfold strippedActivities withoutActivities at ha
      split at ha
      · rename_i hnone
        by_contra hout
        have hmem : a ∈ unprotectedActivities A (strippedAudits limits E s) :=
          List.mem_filter.mpr ⟨ha, by simpa using hout⟩
        rw [List.map_eq_nil_iff.mp (List.isEmpty_iff.mp hnone)] at hmem
        cases hmem
      · exact protected_of_kept ha
    simpa using hin

/-- **The least loss.** The counts are met or only protected records are left, the protected
    records are all there, and a second compaction changes nothing. What went, went in two
    stages: the `k` oldest activities and `m` oldest events the counts asked for, then what the
    bytes asked for; and the bytes are met where all that may go makes them so. -/
structure LeastLoss (limits : HistoryRetentionLimits) (A E : List String)
    (s t : WorkspaceState) : Prop where
  counts : CountsMet limits A E t
  activities : ∀ a ∈ s.activities, a.id ∈ A → a ∈ t.activities
  audit : ∀ e ∈ s.audit, e.id ∈ E → e ∈ t.audit
  stages : ∃ k m, CountStage limits A E s k m ∧
    ByteStage limits A E (countedState limits A E s k m) t ∧
    (serializedBytes (encode (stripped limits A E (countedState limits A E s k m))) ≤
      limits.serializedBytes → serializedBytes (encode t) ≤ limits.serializedBytes)
  again : compactWorkspaceHistory t limits A E = t

/-- Where the counts are met, a compaction has only the bytes to see to. -/
theorem compaction_of_counted (h : Ledgered t) (hc : CountsMet limits A E t) :
    compactWorkspaceHistory t limits A E = compactBytes t limits A E := by
  obtain ⟨k, m, hstage, heq⟩ := compaction_counts h limits A E
  have hfirst : withCommandReceipts t [] limits.commandReceipts = t := by
    show { t with commandReceipts := lastOf limits.commandReceipts t.commandReceipts } = t
    rw [lastOf_short hc.receipts]
  have hk : k = 0 := by
    by_contra hne
    have hmany := hstage.needed 0 (Nat.pos_of_ne_zero hne)
    have hle := hstage.activities
    have hall : (∀ a ∈ t.activities, a.id ∈ A) → unprotectedActivities A t = [] := fun hA =>
      List.filter_eq_nil_iff.mpr fun a ha => by simpa using hA a ha
    have hsame : keptActivities t ((unprotectedActivities A t).take 0) = t.activities :=
      List.filter_eq_self.mpr fun _ _ => rfl
    rw [hsame] at hmany
    rcases hmany with hmany | hmany
    · rcases hc.activities with hfew | hA
      · omega
      · rw [hall hA, List.length_nil] at hle
        omega
    · rcases hc.patches with hfew | hA
      · omega
      · rw [hall hA, List.length_nil] at hle
        omega
  subst hk
  have hsecond : countedActivities limits A t 0 = t := by
    unfold countedActivities
    rw [hfirst]
    rfl
  have hm : m = 0 := by
    by_contra hne
    have hmany := hstage.auditsNeeded 0 (Nat.pos_of_ne_zero hne)
    have hle := hstage.audits
    have hsame : keptAudits t ((unprotectedAudits E t).take 0) = t.audit :=
      List.filter_eq_self.mpr fun _ _ => rfl
    rw [hsecond] at hmany hle
    rw [hsame] at hmany
    rcases hc.audit with hfew | hE
    · omega
    · have hnone : unprotectedAudits E t = [] :=
        List.filter_eq_nil_iff.mpr fun e he => by simpa using hE e he
      rw [hnone, List.length_nil] at hle
      omega
  subst hm
  have hthird : countedState limits A E t 0 0 = t := by
    unfold countedState
    rw [hsecond]
    rfl
  rw [heq, hthird]

/-- **Retention limits are met with the least loss**, in every state of a history and for every
    protection that covers the activities of the events it covers. -/
theorem compaction_leastLoss (hs : history.Reachable s)
    (hprotected : ∀ e ∈ s.audit, e.id ∈ E → ∀ id ∈ e.targetActivityIds, id ∈ A) :
    LeastLoss limits A E s (compactWorkspaceHistory s limits A E) := by
  have h := history_ledgered hs
  obtain ⟨k, m, hstage, heq⟩ := compaction_counts h limits A E
  obtain ⟨hcounted, hshort⟩ := countedState_short h limits A E k m
  have hbytes : ByteStage limits A E (countedState limits A E s k m)
      (compactWorkspaceHistory s limits A E) := heq ▸ compactBytes_stage hcounted hshort
  have horder : InOrder (countedState limits A E s k m)
      (compactWorkspaceHistory s limits A E) := by
    rw [heq]
    exact (Compacts.compactBytes .done).inOrder
  have hcounts := hbytes.counted hcounted horder (hstage.met h)
  have hkept := compactWorkspaceHistory_compacted s limits A E h.referenced hprotected
  refine ⟨hcounts, hkept.activities, hkept.audit, ⟨k, m, hstage, hbytes, hbytes.met⟩, ?_⟩
  have ht : Ledgered (compactWorkspaceHistory s limits A E) :=
    (compactWorkspaceHistory_compacts _ _ _ _).ledgered h
  rw [compaction_of_counted ht hcounts]
  by_cases hfits : serializedBytes (encode (compactWorkspaceHistory s limits A E)) ≤
      limits.serializedBytes
  · rw [compactBytes_eq, if_pos hfits]
  · have hbare : unprotectedAudits E (compactWorkspaceHistory s limits A E) = [] ∧
        unprotectedActivities A (compactWorkspaceHistory s limits A E) = [] ∧
        (compactWorkspaceHistory s limits A E).commandReceipts.dropLast = [] := by
      generalize compactWorkspaceHistory s limits A E = t at hbytes hfits
      cases hbytes with
      | fits h => exact absurd h hfits
      | audits k h => exact absurd h.fits hfits
      | activities k h => exact absurd h.fits hfits
      | receipts k h => exact absurd h.fits hfits
      | everything => exact stripped_bare hcounted
    exact (compactBytes_stage ht hcounts.receipts).unchanged hbare.1 hbare.2.1 hbare.2.2

end Compaction

/-- The state after a renaming, where it is accepted. -/
def namedAgain (s : WorkspaceState) (id name : String) : WorkspaceState :=
  match @applyCommand asciiHost s (firstEnvelope id (.workspaceRename name)) with
  | .ok r => r.state
  | .error _ => s

theorem namedAgain_reachable {s : WorkspaceState} (id name : String)
    (hs : (@history asciiHost).Reachable s) (hnew : wasApplied s id = false)
    (hok : (@applyCommand asciiHost s (firstEnvelope id (.workspaceRename name))).isOk = true) :
    (@history asciiHost).Reachable (namedAgain s id name) := by
  refine hs.step (a := .accept (firstEnvelope id (.workspaceRename name))) ⟨hnew, ?_⟩
  unfold namedAgain
  cases hr : @applyCommand asciiHost s (firstEnvelope id (.workspaceRename name)) with
  | error e =>
      rw [hr] at hok
      cases hok
  | ok r => exact ⟨r, rfl, rfl⟩

/-- Of two renamings the older one is forgotten, but for its receipt. -/
theorem compaction_leastLoss_renamed :
    @LeastLoss asciiHost (activityLimits 1 10) ["activity_c2"] []
        (namedAgain (namedAgain firstState "c1" "Flat") "c2" "House")
        (@compactWorkspaceHistory asciiHost
          (namedAgain (namedAgain firstState "c1" "Flat") "c2" "House") (activityLimits 1 10)
          ["activity_c2"] []) ∧
      (@compactWorkspaceHistory asciiHost
        (namedAgain (namedAgain firstState "c1" "Flat") "c2" "House") (activityLimits 1 10)
        ["activity_c2"] []).activities.map (·.id) = ["activity_c2"] ∧
      (@compactWorkspaceHistory asciiHost
        (namedAgain (namedAgain firstState "c1" "Flat") "c2" "House") (activityLimits 1 10)
        ["activity_c2"] []).commandReceipts = ["c1"] := by
  have hfirst : (@history asciiHost).Reachable firstState :=
    ⟨firstState, [], ⟨"1", "Home", "2024-01-01T00:00:00.000Z", rfl⟩, .nil _⟩
  have hflat := namedAgain_reachable "c1" "Flat" hfirst rfl (by decide +kernel)
  have hhouse := namedAgain_reachable "c2" "House" hflat (by decide +kernel)
    (by decide +kernel)
  exact ⟨@compaction_leastLoss (activityLimits 1 10) ["activity_c2"] [] _ asciiHost hhouse
    (fun _ _ h => absurd h List.not_mem_nil), by decide +kernel, by decide +kernel⟩

end Stowplan
