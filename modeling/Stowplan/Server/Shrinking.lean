/-
  File:      Stowplan/Server/Shrinking.lean
  Subject:   REMOVING MORE HISTORY NEVER TAKES MORE BYTES.

  A removal leaves receipts for the commands of what it removes, and it writes new labels for the
  events that lose some of their activities. Both take fewer bytes than what is removed, so the
  size of a snapshot falls with every activity, event or receipt that goes: what a binary search
  over the number of removals rests on.

  * `bytes_of_sameRecords`: two snapshots of the same records differ by their history;
  * `withoutActivities_bytes`, `withoutAudits_bytes`, `withoutReceipts_bytes`: the three stages;
  * `removalCountLoop_least`: the search finds the least number.
-/
import Stowplan.Js.JsonSize
import Stowplan.Server.Compaction
import Mathlib.Algebra.Order.BigOperators.Group.List

namespace Stowplan

open JsValue

/-! ## 1. The bytes of the history -/

section Bytes

variable [Host] {s t : WorkspaceState}

/-- The bytes of a list of records, each with its comma. -/
def listWidth {α : Type} [Codec α] (l : List α) : Nat := (l.map fun a => jsonBytes (encode a) + 1).sum

theorem jsonBytes_list {α : Type} [Codec α] (l : List α) :
    jsonBytes (encode l) = 2 + (listWidth l - 1) := by
  show jsonBytes (.arr (l.map encode)) = _
  rw [jsonBytes_arr, listBytes, List.map_map]
  rfl

/-- The bytes of the history, but for the brackets. -/
def historyBytes (s : WorkspaceState) : Nat :=
  (listWidth s.activities - 1) + (listWidth s.audit - 1) + (listWidth s.commandReceipts - 1)

theorem fieldBytes_list {α : Type} [Codec α] (k : String) (l : List α)
    (rest : List (String × JsValue)) : fieldBytes ((k, encode l) :: rest) =
      2 + quoteBytes k + 1 + (2 + (listWidth l - 1)) + 1 + fieldBytes rest := by
  rw [← jsonBytes_list]
  rfl

/-- The fields that are no history. -/
def recordFields (s : WorkspaceState) : List (String × JsValue) := [
  ("items", encode s.items), ("locations", encode s.locations), ("plans", encode s.plans),
  ("schemaVersion", encode schemaVersion), ("workspace", encode s.workspace)]

/-- **Two snapshots of the same records** differ by their history. -/
theorem bytes_of_sameRecords (h : SameRecords s t) :
    serializedBytes (encode s) + historyBytes t = serializedBytes (encode t) + historyBytes s := by
  have hfields : recordFields t = recordFields s := by
    unfold recordFields
    rw [h.items, h.locations, h.plans, h.workspace]
  have hs : serializedBytes (encode s) = 2 + (fieldBytes (("activities", encode s.activities) ::
      ("audit", encode s.audit) :: ("commandReceipts", encode s.commandReceipts) ::
        recordFields s) - 1) := jsonBytes_obj _
  have ht : serializedBytes (encode t) = 2 + (fieldBytes (("activities", encode t.activities) ::
      ("audit", encode t.audit) :: ("commandReceipts", encode t.commandReceipts) ::
        recordFields t) - 1) := jsonBytes_obj _
  rw [fieldBytes_list, fieldBytes_list, fieldBytes_list] at hs ht
  rw [hs, ht, hfields]
  unfold historyBytes
  generalize listWidth s.activities - 1 = a, listWidth s.audit - 1 = e,
    listWidth s.commandReceipts - 1 = c, listWidth t.activities - 1 = a',
    listWidth t.audit - 1 = e', listWidth t.commandReceipts - 1 = c'
  omega

end Bytes

/-! ## 2. What a receipt takes -/

section Widths

variable [Host]

theorem fieldBytes_str (k x : String) (rest : List (String × JsValue)) :
    fieldBytes ((k, encode x) :: rest) =
      2 + quoteBytes k + 1 + (2 + quoteBytes x) + 1 + fieldBytes rest := by
  show 2 + quoteBytes k + 1 + jsonBytes (.str x) + 1 + fieldBytes rest = _
  rw [jsonBytes_str]

/-- The bytes of a receipt, with its comma. -/
def receiptWidth (commandId : String) : Nat := 3 + quoteBytes commandId

theorem listWidth_receipts (receipts : List String) :
    listWidth receipts = (receipts.map receiptWidth).sum := by
  unfold listWidth
  congr 1
  refine List.map_congr_left fun x _ => ?_
  show jsonBytes (.str x) + 1 = 3 + quoteBytes x
  rw [jsonBytes_str]
  omega

/-- **The receipt of an activity** takes fewer bytes than the activity. -/
theorem receiptWidth_activity (a : ActivityRecord) :
    receiptWidth a.commandId + 3 ≤ jsonBytes (encode a) + 1 := by
  have ha : jsonBytes (encode a) = 2 + (fieldBytes (("actorId", encode a.actorId) ::
      ("commandId", encode a.commandId) :: [("id", encode a.id), ("label", encode a.label),
        ("patches", encode a.patches), ("status", encode a.status),
        ("subjectIds", encode a.subjectIds), ("timestamp", encode a.timestamp),
        ("undoneAt", encode a.undoneAt)]) - 1) := jsonBytes_obj _
  rw [fieldBytes_str, fieldBytes_str] at ha
  unfold receiptWidth
  omega

/-- The fields of an event, and what they take. -/
theorem jsonBytes_event (e : AuditEvent) : ∃ n, ∀ label targetActivityIds,
    jsonBytes (encode { e with label, targetActivityIds }) =
      n + quoteBytes e.id + quoteBytes label + (listWidth targetActivityIds - 1) := by
  refine ⟨2 + (2 + quoteBytes "actorId" + 1 + (2 + quoteBytes e.actorId) + 1 +
    (2 + quoteBytes "id" + 1 + 2 + 1 + (2 + quoteBytes "label" + 1 + 2 + 1 +
      (2 + quoteBytes "targetActivityIds" + 1 + 2 + 1 + fieldBytes [
        ("timestamp", encode e.timestamp), ("type", encode e.type)]))) - 1), fun label ids => ?_⟩
  have he : jsonBytes (encode ({ e with label, targetActivityIds := ids } : AuditEvent)) =
      2 + (fieldBytes (("actorId", encode e.actorId) :: ("id", encode e.id) ::
        ("label", encode label) :: ("targetActivityIds", encode ids) :: [
          ("timestamp", encode e.timestamp), ("type", encode e.type)]) - 1) := jsonBytes_obj _
  rw [fieldBytes_str, fieldBytes_str, fieldBytes_str, fieldBytes_list] at he
  omega

/-- **The receipt of an event** takes fewer bytes than the event. -/
theorem receiptWidth_event {e : AuditEvent} {id : String} (h : commandIdForAudit e = some id) :
    receiptWidth id + 3 ≤ jsonBytes (encode e) + 1 := by
  have he : jsonBytes (encode e) = 2 + (fieldBytes (("actorId", encode e.actorId) ::
      ("id", encode e.id) :: [("label", encode e.label),
        ("targetActivityIds", encode e.targetActivityIds), ("timestamp", encode e.timestamp),
        ("type", encode e.type)]) - 1) := jsonBytes_obj _
  rw [fieldBytes_str, fieldBytes_str, commandIdForAudit_some h, quoteBytes_append] at he
  unfold receiptWidth
  omega

omit [Host] in
/-- A label that tells of fewer changes is no longer. -/
theorem quoteBytes_auditLabel {e : AuditEvent} {m n : Nat} (hm : 0 < m) (h : m ≤ n) :
    quoteBytes (auditLabel e m) ≤ quoteBytes (auditLabel e n) := by
  have hcount := quoteBytes_repr_le h
  unfold auditLabel
  simp only [quoteBytes_append]
  have hplural : quoteBytes (if m = 1 then "" else "s") ≤
      quoteBytes (if n = 1 then "" else "s") := by
    by_cases hn : n = 1
    · rw [if_pos hn, if_pos (by omega)]
    · rw [if_neg hn]
      split
      · exact Nat.zero_le _
      · exact le_rfl
  omega

end Widths

/-! ## 3. The ledger -/

/-- The last entries of a ledger. -/
def lastOf (limit : Nat) (l : List String) : List String := l.drop (l.length - limit)

/-- The commands that a snapshot tells of, each once: by its receipt, its activity or its event. -/
structure Ledgered (s : WorkspaceState) : Prop where
  activities : ∀ a ∈ s.activities, a.id = "activity_" ++ a.commandId ∧ a.commandId ≠ ""
  audit : ∀ e ∈ s.audit, (commandIdForAudit e).isSome = true
  commands : (s.commandReceipts ++ (s.activities.map (·.commandId) ++
    s.audit.filterMap commandIdForAudit)).Nodup
  referenced : ∀ e ∈ s.audit, Referenced s e
  labels : ∀ e ∈ s.audit, e.label = auditLabel e e.targetActivityIds.length

section Ledger

theorem addReceipts_fresh {receipts ids : List String} (h : (receipts ++ ids).Nodup)
    (hne : "" ∉ ids) : addReceipts receipts (ids.map some) = receipts ++ ids := by
  induction ids generalizing receipts with
  | nil => exact (List.append_nil _).symm
  | cons id ids ih =>
      have hnew : id ∉ receipts := fun hin =>
        (List.nodup_append.mp h).2.2 id hin id List.mem_cons_self rfl
      have hid : id ≠ "" := fun h => hne (h ▸ List.mem_cons_self)
      have hadd : addReceipts receipts ((id :: ids).map some) =
          addReceipts (receipts ++ [id]) (ids.map some) := by
        unfold addReceipts
        rw [List.map_cons, List.foldl_cons]
        simp [hid, hnew]
      rw [hadd, ih (by simpa using h) fun hin => hne (List.mem_cons_of_mem _ hin)]
      simp

theorem map_eq_some {α β : Type} {f : α → Option β} {l : List α}
    (h : ∀ a ∈ l, (f a).isSome = true) : l.map f = (l.filterMap f).map some := by
  induction l with
  | nil => rfl
  | cons a l ih =>
      obtain ⟨b, hb⟩ := Option.isSome_iff_exists.mp (h a List.mem_cons_self)
      rw [List.map_cons, List.filterMap_cons_some hb, List.map_cons, hb,
        ih fun a ha => h a (List.mem_cons_of_mem _ ha)]

/-- **The end of a ledger that grows in the middle** grows by no more than it took in. -/
theorem lastOf_width (w : String → Nat) (limit : Nat) {l l' : List String} (h : l.Sublist l') :
    ((lastOf limit l').map w).sum + (l.map w).sum ≤
      ((lastOf limit l).map w).sum + (l'.map w).sum := by
  have hsplit : ∀ l : List String, (l.map w).sum =
      ((l.take (l.length - limit)).map w).sum + ((lastOf limit l).map w).sum := by
    intro l
    rw [← List.sum_append, ← List.map_append]
    unfold lastOf
    rw [List.take_append_drop]
  have hdropped : (l.take (l.length - limit)).Sublist (l'.take (l'.length - limit)) := by
    have hrev := (h.reverse.drop limit).reverse
    rwa [List.drop_reverse, List.drop_reverse, List.reverse_reverse, List.reverse_reverse] at hrev
  have hle := (hdropped.map w).sum_le_sum fun _ _ => Nat.zero_le _
  have hl := hsplit l
  have hl' := hsplit l'
  omega

end Ledger

/-! ## 4. Removing activities -/

/-- The event without the activities that are gone. -/
def eventWithout (retainedActivityIds : List String) (event : AuditEvent) : Option AuditEvent :=
  let targetActivityIds := event.targetActivityIds.filter (retainedActivityIds.contains ·)
  if targetActivityIds.isEmpty then none
  else if targetActivityIds.length = event.targetActivityIds.length then some event
  else some { event with label := auditLabel event targetActivityIds.length, targetActivityIds }

/-- The identifiers of the activities that stay. -/
def retainedIds (s : WorkspaceState) (removed : List String) : List String :=
  (s.activities.filter fun a => !removed.contains a.id).map (·.id)

/-- The commands of the activities and of the events that go. -/
def goneCommands (s : WorkspaceState) (removed : List String) : List String :=
  (s.activities.filter fun a => removed.contains a.id).map (·.commandId) ++
    (s.audit.filter fun e => (eventWithout (retainedIds s removed) e).isNone).filterMap
      commandIdForAudit

section Activities

variable {s : WorkspaceState} {removed removed' : List String} {limit : Nat}

theorem auditWithout_eq (s : WorkspaceState) (removed : List String) :
    auditWithout s removed = s.audit.filterMap (eventWithout (retainedIds s removed)) := rfl

theorem eventWithout_some {retained : List String} {e e' : AuditEvent}
    (h : eventWithout retained e = some e') (hlabel : e.label =
      auditLabel e e.targetActivityIds.length) :
    e' = { e with
      label := auditLabel e (e.targetActivityIds.filter (retained.contains ·)).length
      targetActivityIds := e.targetActivityIds.filter (retained.contains ·) } ∧
    0 < (e.targetActivityIds.filter (retained.contains ·)).length := by
  unfold eventWithout at h
  dsimp only at h
  split at h
  · cases h
  · rename_i hsome
    have hpos : 0 < (e.targetActivityIds.filter (retained.contains ·)).length :=
      List.length_pos_of_ne_nil fun hnil => hsome (List.isEmpty_iff.mpr hnil)
    split at h
    · rename_i hlen
      cases h
      rw [List.filter_sublist.eq_of_length hlen] at hpos ⊢
      rw [← hlabel]
      exact ⟨rfl, hpos⟩
    · cases h
      exact ⟨rfl, hpos⟩

theorem eventWithout_id {retained : List String} {e e' : AuditEvent}
    (h : eventWithout retained e = some e') : e'.id = e.id := by
  unfold eventWithout at h
  dsimp only at h
  split at h
  · cases h
  · split at h
    · cases h
      rfl
    · cases h
      rfl

theorem eq_of_filterMap {α β : Type} {f : α → Option β} {l : List α} (h : (l.filterMap f).Nodup)
    {a a' : α} {b : β} (ha : a ∈ l) (ha' : a' ∈ l) (hb : f a = some b) (hb' : f a' = some b) :
    a = a' := by
  induction l with
  | nil => cases ha
  | cons c l ih =>
      have hmem : ∀ {x}, x ∈ l → f x = some b → b ∈ l.filterMap f := fun hx hfx =>
        List.mem_filterMap.mpr ⟨_, hx, hfx⟩
      rcases List.mem_cons.mp ha with hac | ha
      · rcases List.mem_cons.mp ha' with hac' | ha'
        · exact hac.trans hac'.symm
        · rw [List.filterMap_cons_some (hac ▸ hb)] at h
          exact absurd (hmem ha' hb') (List.nodup_cons.mp h).1
      · rcases List.mem_cons.mp ha' with hac' | ha'
        · rw [List.filterMap_cons_some (hac' ▸ hb')] at h
          exact absurd (hmem ha hb) (List.nodup_cons.mp h).1
        · refine ih ?_ ha ha'
          cases hc : f c with
          | none =>
              rw [List.filterMap_cons_none hc] at h
              exact h
          | some x =>
              rw [List.filterMap_cons_some hc] at h
              exact (List.nodup_cons.mp h).2

/-- No two events have one identifier. -/
theorem Ledgered.event_eq (h : Ledgered s) {e e' : AuditEvent} (he : e ∈ s.audit)
    (he' : e' ∈ s.audit) (hid : e.id = e'.id) : e = e' := by
  obtain ⟨x, hx⟩ := Option.isSome_iff_exists.mp (h.audit e he)
  have hx' : commandIdForAudit e' = some x := by
    unfold commandIdForAudit at hx ⊢
    rw [← hid]
    exact hx
  exact eq_of_filterMap (List.nodup_append.mp (List.nodup_append.mp h.commands).2.1).2.1 he he' hx hx'

/-- The receipts that are asked for are those of the commands that go. -/
theorem Ledgered.activityReceipts (h : Ledgered s) (removed : List String) :
    activityReceipts s removed = (goneCommands s removed).map some := by
  have hgone : (s.audit.filter fun e =>
      !((auditWithout s removed).map (·.id)).contains e.id) =
        s.audit.filter fun e => (eventWithout (retainedIds s removed) e).isNone := by
    refine List.filter_congr fun e he => ?_
    rw [Bool.eq_iff_iff, Bool.not_eq_true', Bool.eq_false_iff, ne_eq, List.contains_iff_mem,
      Option.isNone_iff_eq_none, auditWithout_eq]
    constructor
    · intro hnot
      by_contra hsome
      obtain ⟨e', he'⟩ := Option.ne_none_iff_exists'.mp hsome
      exact hnot (List.mem_map.mpr ⟨e', List.mem_filterMap.mpr ⟨e, he, he'⟩, eventWithout_id he'⟩)
    · intro hnone hin
      obtain ⟨e', he', hid⟩ := List.mem_map.mp hin
      obtain ⟨e'', he'', hsome⟩ := List.mem_filterMap.mp he'
      obtain rfl := h.event_eq he'' he ((eventWithout_id hsome).symm.trans hid)
      rw [hnone] at hsome
      cases hsome
  unfold Stowplan.activityReceipts goneCommands
  rw [hgone, List.map_append, List.map_map,
    map_eq_some fun e he => h.audit e (List.mem_filter.mp he).1]
  rfl

/-- The commands that go are commands of the snapshot. -/
theorem goneCommands_sublist (s : WorkspaceState) (removed : List String) :
    (goneCommands s removed).Sublist
      (s.activities.map (·.commandId) ++ s.audit.filterMap commandIdForAudit) :=
  (List.filter_sublist.map _).append (List.filter_sublist.filterMap _)

theorem Ledgered.ne_empty (h : Ledgered s) :
    "" ∉ s.activities.map (·.commandId) ++ s.audit.filterMap commandIdForAudit := by
  intro hin
  rcases List.mem_append.mp hin with hin | hin
  · obtain ⟨a, ha, hid⟩ := List.mem_map.mp hin
    exact (h.activities a ha).2 hid
  · obtain ⟨e, he, hid⟩ := List.mem_filterMap.mp hin
    unfold commandIdForAudit at hid
    dsimp only at hid
    split at hid
    · split at hid
      · cases hid
      · rename_i hne
        exact hne (Option.some.inj hid)
    · cases hid

theorem retainedIds_nil (s : WorkspaceState) :
    retainedIds s [] = s.activities.map (·.id) := by
  unfold retainedIds
  simp

/-- Where no activity goes, no event does. -/
theorem Ledgered.eventWithout_nil (h : Ledgered s) {e : AuditEvent} (he : e ∈ s.audit) :
    eventWithout (retainedIds s []) e = some e := by
  obtain ⟨hne, hall⟩ := h.referenced e he
  have hfilter : e.targetActivityIds.filter ((retainedIds s []).contains ·) =
      e.targetActivityIds := by
    rw [retainedIds_nil]
    exact List.filter_eq_self.mpr fun id hid => List.contains_iff_mem.mpr (hall id hid)
  unfold eventWithout
  dsimp only
  rw [hfilter, if_neg (by simpa using hne), if_pos rfl]

theorem lastOf_short {l : List String} (h : l.length ≤ limit) : lastOf limit l = l := by
  unfold lastOf
  rw [Nat.sub_eq_zero_of_le h, List.drop_zero]

/-- What is left where an activity is asked to go. -/
theorem Ledgered.withoutSome (h : Ledgered s) (hr : removed.isEmpty = false) :
    Stowplan.withoutActivities s removed limit = { s with
      activities := s.activities.filter fun a => !removed.contains a.id
      audit := s.audit.filterMap (eventWithout (retainedIds s removed))
      commandReceipts := lastOf limit (s.commandReceipts ++ goneCommands s removed) } := by
  have hsub := goneCommands_sublist s removed
  have hfresh := addReceipts_fresh
    (((List.Sublist.refl s.commandReceipts).append hsub).nodup h.commands)
    fun hin => h.ne_empty (hsub.subset hin)
  rw [withoutActivities_eq hr, h.activityReceipts]
  unfold withCommandReceipts
  dsimp only
  rw [hfresh]
  rfl

/-- **What is left without activities.** -/
theorem Ledgered.withoutActivities (h : Ledgered s) (hlimit : s.commandReceipts.length ≤ limit)
    (removed : List String) : withoutActivities s removed limit = { s with
      activities := s.activities.filter fun a => !removed.contains a.id
      audit := s.audit.filterMap (eventWithout (retainedIds s removed))
      commandReceipts := lastOf limit (s.commandReceipts ++ goneCommands s removed) } := by
  cases hr : removed.isEmpty with
  | false => exact h.withoutSome hr
  | true =>
      obtain rfl := List.isEmpty_iff.mp hr
      have haudit : s.audit.filterMap (eventWithout (retainedIds s [])) = s.audit := by
        rw [List.filterMap_congr fun e he => h.eventWithout_nil he, List.filterMap_some]
      have hnone : (s.audit.filter fun e =>
          (eventWithout (retainedIds s []) e).isNone) = [] :=
        List.filter_eq_nil_iff.mpr fun e he => by simp [h.eventWithout_nil he]
      have hgone : goneCommands s [] = [] := by
        unfold goneCommands
        rw [hnone]
        simp
      have hall : (s.activities.filter fun a => !([] : List String).contains a.id) =
          s.activities := List.filter_eq_self.mpr fun _ _ => rfl
      rw [haudit, hgone, hall, List.append_nil, lastOf_short hlimit]
      rfl

section Width

variable [Host]

omit [Host] in
theorem sum_split {α : Type} (p : α → Bool) (f g : α → Nat) (l : List α) :
    (l.map fun a => if p a then f a else g a).sum =
      ((l.filter p).map f).sum + ((l.filter fun a => !p a).map g).sum := by
  induction l with
  | nil => rfl
  | cons a l ih =>
      rw [List.map_cons, List.sum_cons, ih]
      by_cases h : p a = true
      · simp [h]
        omega
      · simp [h]
        omega

/-- What an activity takes, or its receipt and three bytes more where it goes. -/
def activityShare (removed : List String) (a : ActivityRecord) : Nat :=
  if removed.contains a.id then receiptWidth a.commandId + 3 else jsonBytes (encode a) + 1

/-- The same for an event. -/
def eventShare (retained : List String) (e : AuditEvent) : Nat :=
  match eventWithout retained e with
  | some e' => jsonBytes (encode e') + 1
  | none => receiptWidth ((commandIdForAudit e).getD "") + 3

theorem activityShare_le (h : ∀ id ∈ removed, id ∈ removed') (a : ActivityRecord) :
    activityShare removed' a ≤ activityShare removed a := by
  have hle := receiptWidth_activity a
  unfold activityShare
  by_cases hr : removed.contains a.id = true
  · rw [if_pos hr, if_pos (List.contains_iff_mem.mpr (h _ (List.contains_iff_mem.mp hr)))]
  · rw [if_neg hr]
    split
    · exact hle
    · exact le_rfl

omit [Host] in
theorem eventWithout_none {retained : List String} {e : AuditEvent} :
    eventWithout retained e = none ↔ e.targetActivityIds.filter (retained.contains ·) = [] := by
  unfold eventWithout
  dsimp only
  split
  · rename_i hempty
    exact iff_of_true rfl (List.isEmpty_iff.mp hempty)
  · rename_i hsome
    refine iff_of_false ?_ fun hnil => hsome (List.isEmpty_iff.mpr hnil)
    split <;> exact Option.some_ne_none _

omit [Host] in
theorem targets_sublist {retained retained' : List String} (h : ∀ id ∈ retained', id ∈ retained)
    (e : AuditEvent) : (e.targetActivityIds.filter (retained'.contains ·)).Sublist
      (e.targetActivityIds.filter (retained.contains ·)) :=
  List.monotone_filter_right _ fun id hid =>
    List.contains_iff_mem.mpr (h id (List.contains_iff_mem.mp hid))

theorem eventShare_le {retained retained' : List String} {e : AuditEvent}
    (h : ∀ id ∈ retained', id ∈ retained) (hcommand : (commandIdForAudit e).isSome = true)
    (hlabel : e.label = auditLabel e e.targetActivityIds.length) :
    eventShare retained' e ≤ eventShare retained e := by
  have hsub := targets_sublist h e
  obtain ⟨x, hx⟩ := Option.isSome_iff_exists.mp hcommand
  unfold eventShare
  rw [hx]
  cases hsome : eventWithout retained e with
  | none =>
      have hnone : eventWithout retained' e = none := by
        rw [eventWithout_none] at hsome ⊢
        rw [hsome] at hsub
        exact List.sublist_nil.mp hsub
      rw [hnone]
  | some e₁ =>
      obtain ⟨he₁, -⟩ := eventWithout_some hsome hlabel
      cases hsome' : eventWithout retained' e with
      | none =>
          have hx₁ : commandIdForAudit e₁ = some x := by
            rw [he₁]
            exact hx
          exact receiptWidth_event hx₁
      | some e₂ =>
          obtain ⟨he₂, hpos⟩ := eventWithout_some hsome' hlabel
          obtain ⟨n, hn⟩ := jsonBytes_event e
          have hlabels := quoteBytes_auditLabel (e := e) hpos hsub.length_le
          have hids := (hsub.map fun id => jsonBytes (encode id) + 1).sum_le_sum
            fun _ _ => Nat.zero_le _
          have hbytes₁ := (congrArg (fun e : AuditEvent => jsonBytes (encode e)) he₁).trans (hn _ _)
          have hbytes₂ := (congrArg (fun e : AuditEvent => jsonBytes (encode e)) he₂).trans (hn _ _)
          dsimp only at hbytes₁ hbytes₂ ⊢
          unfold listWidth at hbytes₁ hbytes₂
          omega

omit [Host] in
theorem retainedIds_mono (h : ∀ id ∈ removed, id ∈ removed') :
    ∀ id ∈ retainedIds s removed', id ∈ retainedIds s removed := by
  intro id hid
  obtain ⟨a, ha, rfl⟩ := List.mem_map.mp hid
  obtain ⟨ha, hkept⟩ := List.mem_filter.mp ha
  refine List.mem_map_of_mem (List.mem_filter.mpr ⟨ha, ?_⟩)
  simp only [Bool.not_eq_true', Bool.eq_false_iff, ne_eq, List.contains_iff_mem] at hkept ⊢
  exact fun hin => hkept (h _ hin)

omit [Host] in
/-- Where more activities go, more events go. -/
theorem goneEvents_mono (h : ∀ id ∈ removed, id ∈ removed') :
    (s.audit.filter fun e => (eventWithout (retainedIds s removed) e).isNone).Sublist
      (s.audit.filter fun e => (eventWithout (retainedIds s removed') e).isNone) := by
  refine List.monotone_filter_right _ fun e he => ?_
  rw [Option.isNone_iff_eq_none, eventWithout_none] at he ⊢
  have hsub := targets_sublist (retainedIds_mono (s := s) h) e
  rw [he] at hsub
  exact List.sublist_nil.mp hsub

omit [Host] in
/-- Where more activities go, more commands go. -/
theorem goneCommands_mono (h : ∀ id ∈ removed, id ∈ removed') :
    (goneCommands s removed).Sublist (goneCommands s removed') := by
  refine List.Sublist.append (List.Sublist.map _ ?_) ((goneEvents_mono h).filterMap _)
  exact List.monotone_filter_right _ fun a ha =>
    List.contains_iff_mem.mpr (h _ (List.contains_iff_mem.mp ha))

omit [Host] in
/-- Where as many go, the same stay. -/
theorem kept_of_gone {α : Type} {p q : α → Bool} {l : List α}
    (h : (l.filter p).Sublist (l.filter q)) (hlen : (l.filter p).length = (l.filter q).length) :
    (l.filter fun a => !q a) = l.filter fun a => !p a := by
  have hsame := h.eq_of_length hlen
  refine List.filter_congr fun a ha => ?_
  congr 1
  rw [Bool.eq_iff_iff]
  constructor
  · intro hin
    have hmem : a ∈ l.filter q := List.mem_filter.mpr ⟨ha, hin⟩
    rw [← hsame] at hmem
    exact (List.mem_filter.mp hmem).2
  · intro hin
    have hmem : a ∈ l.filter p := List.mem_filter.mpr ⟨ha, hin⟩
    rw [hsame] at hmem
    exact (List.mem_filter.mp hmem).2

omit [Host] in
/-- Where as many commands go, the same activities stay. -/
theorem kept_of_goneCommands (h : ∀ id ∈ removed, id ∈ removed')
    (hlen : (goneCommands s removed').length = (goneCommands s removed).length) :
    (s.activities.filter fun a => !removed'.contains a.id) =
      s.activities.filter fun a => !removed.contains a.id := by
  have hactivities : (s.activities.filter fun a => removed.contains a.id).Sublist
      (s.activities.filter fun a => removed'.contains a.id) :=
    List.monotone_filter_right _ fun a ha =>
      List.contains_iff_mem.mpr (h _ (List.contains_iff_mem.mp ha))
  have hsame : (s.activities.filter fun a => removed.contains a.id) =
      s.activities.filter fun a => removed'.contains a.id := by
    refine hactivities.eq_of_length ?_
    have hle := hactivities.length_le
    have hle' := ((goneEvents_mono (s := s) h).filterMap commandIdForAudit).length_le
    unfold goneCommands at hlen
    simp only [List.length_append, List.length_map] at hlen
    omega
  exact kept_of_gone hactivities (congrArg List.length hsame)

theorem eventShares {retained : List String} {audit : List AuditEvent}
    (h : ∀ e ∈ audit, (commandIdForAudit e).isSome = true) :
    (audit.map (eventShare retained)).sum = listWidth (audit.filterMap (eventWithout retained)) +
      ((((audit.filter fun e => (eventWithout retained e).isNone).filterMap
        commandIdForAudit).map receiptWidth).sum +
      3 * ((audit.filter fun e => (eventWithout retained e).isNone).filterMap
        commandIdForAudit).length) := by
  induction audit with
  | nil => rfl
  | cons e audit ih =>
      obtain ⟨x, hx⟩ := Option.isSome_iff_exists.mp (h e List.mem_cons_self)
      rw [List.map_cons, List.sum_cons, ih fun e he => h e (List.mem_cons_of_mem _ he)]
      unfold eventShare listWidth
      cases hsome : eventWithout retained e with
      | none => simp [hsome, hx]; omega
      | some e' => simp [hsome]; omega

/-- **The shares of a removal** are what is left, and what the receipts take. -/
theorem Ledgered.shares (h : Ledgered s) (removed : List String) :
    (s.activities.map (activityShare removed)).sum +
        (s.audit.map (eventShare (retainedIds s removed))).sum =
      listWidth (s.activities.filter fun a => !removed.contains a.id) +
        listWidth (s.audit.filterMap (eventWithout (retainedIds s removed))) +
        (((goneCommands s removed).map receiptWidth).sum +
          3 * (goneCommands s removed).length) := by
  have hactivities := sum_split (fun a : ActivityRecord => removed.contains a.id)
    (fun a => receiptWidth a.commandId + 3) (fun a => jsonBytes (encode a) + 1) s.activities
  have hgone : ((s.activities.filter fun a => removed.contains a.id).map fun a =>
      receiptWidth a.commandId + 3).sum =
        (((s.activities.filter fun a => removed.contains a.id).map (·.commandId)).map
          receiptWidth).sum + 3 * (s.activities.filter fun a => removed.contains a.id).length := by
    rw [List.map_map]
    generalize s.activities.filter (fun a => removed.contains a.id) = l
    induction l with
    | nil => rfl
    | cons a l ih =>
        simp only [List.map_cons, List.sum_cons, List.length_cons, Function.comp_apply] at ih ⊢
        omega
  rw [eventShares h.audit]
  unfold goneCommands activityShare
  rw [hactivities, hgone, List.map_append, List.sum_append, List.length_append, List.length_map]
  unfold listWidth
  omega

/-- **Where more activities go, the snapshot takes fewer bytes.** -/
theorem Ledgered.withoutActivities_bytes (h : Ledgered s)
    (hlimit : s.commandReceipts.length ≤ limit) (hsub : ∀ id ∈ removed, id ∈ removed') :
    serializedBytes (encode (Stowplan.withoutActivities s removed' limit)) ≤
      serializedBytes (encode (Stowplan.withoutActivities s removed limit)) := by
  have hsame := bytes_of_sameRecords (s := Stowplan.withoutActivities s removed limit)
    (t := Stowplan.withoutActivities s removed' limit) (by
      rw [h.withoutActivities hlimit, h.withoutActivities hlimit]
      exact ⟨rfl, rfl, rfl, rfl⟩)
  suffices hle : historyBytes (Stowplan.withoutActivities s removed' limit) ≤
      historyBytes (Stowplan.withoutActivities s removed limit) by omega
  have hshares := h.shares removed
  have hshares' := h.shares removed'
  have hactivities : (s.activities.map (activityShare removed')).sum ≤
      (s.activities.map (activityShare removed)).sum :=
    List.sum_le_sum fun a _ => activityShare_le hsub a
  have hevents : (s.audit.map (eventShare (retainedIds s removed'))).sum ≤
      (s.audit.map (eventShare (retainedIds s removed))).sum :=
    List.sum_le_sum fun e he =>
      eventShare_le (retainedIds_mono hsub) (h.audit e he) (h.labels e he)
  have hgone := goneCommands_mono (s := s) hsub
  have hledger := lastOf_width receiptWidth limit ((List.Sublist.refl s.commandReceipts).append hgone)
  simp only [List.map_append, List.sum_append] at hledger
  rw [h.withoutActivities hlimit, h.withoutActivities hlimit]
  unfold historyBytes
  dsimp only
  rw [listWidth_receipts, listWidth_receipts]
  rcases Nat.eq_or_lt_of_le hgone.length_le with hlen | hlt
  · -- no command goes that stayed before: only labels may have changed
    have hcommands := hgone.eq_of_length hlen
    have hkept := kept_of_goneCommands hsub hlen.symm
    rw [← hcommands, hkept] at hshares' ⊢
    omega
  · omega

end Width

end Activities

/-! ## 5. Removing events and receipts -/

/-- The commands of the events that go. -/
def goneEvents (s : WorkspaceState) (removed : List String) : List String :=
  (s.audit.filter fun e => removed.contains e.id).filterMap commandIdForAudit

section Events

variable {s : WorkspaceState} {removed removed' : List String} {limit : Nat}

theorem goneEvents_sublist (s : WorkspaceState) (removed : List String) :
    (goneEvents s removed).Sublist
      (s.activities.map (·.commandId) ++ s.audit.filterMap commandIdForAudit) :=
  (List.filter_sublist.filterMap _).trans (List.sublist_append_right _ _)

/-- What is left where an event is asked to go. -/
theorem Ledgered.withoutEvents (h : Ledgered s) (hr : removed.isEmpty = false) :
    Stowplan.withoutAudits s removed limit = { s with
      audit := s.audit.filter fun e => !removed.contains e.id
      commandReceipts := lastOf limit (s.commandReceipts ++ goneEvents s removed) } := by
  have hsub := goneEvents_sublist s removed
  have hasked : auditReceipts s removed = (goneEvents s removed).map some :=
    map_eq_some fun e he => h.audit e (List.mem_filter.mp he).1
  rw [withoutAudits_eq hr, hasked]
  unfold withCommandReceipts
  dsimp only
  rw [addReceipts_fresh (((List.Sublist.refl s.commandReceipts).append hsub).nodup h.commands)
    fun hin => h.ne_empty (hsub.subset hin)]
  rfl

/-- **What is left without events.** -/
theorem Ledgered.withoutAudits (h : Ledgered s) (hlimit : s.commandReceipts.length ≤ limit)
    (removed : List String) : withoutAudits s removed limit = { s with
      audit := s.audit.filter fun e => !removed.contains e.id
      commandReceipts := lastOf limit (s.commandReceipts ++ goneEvents s removed) } := by
  cases hr : removed.isEmpty with
  | false => exact h.withoutEvents hr
  | true =>
      obtain rfl := List.isEmpty_iff.mp hr
      have hnone : goneEvents s [] = [] := by
        unfold goneEvents
        simp
      have hall : (s.audit.filter fun e => !([] : List String).contains e.id) = s.audit :=
        List.filter_eq_self.mpr fun _ _ => rfl
      rw [hnone, hall, List.append_nil, lastOf_short hlimit]
      rfl

theorem goneEvents_length (h : Ledgered s) (removed : List String) :
    (goneEvents s removed).length =
      (s.audit.filter fun e => removed.contains e.id).length := by
  have hall : ∀ e ∈ s.audit.filter fun e => removed.contains e.id,
      (commandIdForAudit e).isSome = true := fun e he => h.audit e (List.mem_filter.mp he).1
  have hlen := congrArg List.length (map_eq_some hall)
  rw [List.length_map, List.length_map] at hlen
  exact hlen.symm

variable [Host]

/-- What the events take that stay, and the receipts of those that go. -/
theorem eventsShares (h : Ledgered s) (removed : List String) :
    (s.audit.map fun e => if removed.contains e.id then
        receiptWidth ((commandIdForAudit e).getD "") + 3 else jsonBytes (encode e) + 1).sum =
      ((goneEvents s removed).map receiptWidth).sum + 3 * (goneEvents s removed).length +
        listWidth (s.audit.filter fun e => !removed.contains e.id) := by
  rw [sum_split (fun e : AuditEvent => removed.contains e.id)
    (fun e => receiptWidth ((commandIdForAudit e).getD "") + 3) (fun e => jsonBytes (encode e) + 1)]
  have hall : ∀ e ∈ s.audit.filter fun e => removed.contains e.id,
      (commandIdForAudit e).isSome = true := fun e he => h.audit e (List.mem_filter.mp he).1
  unfold goneEvents listWidth
  congr 1
  generalize (s.audit.filter fun e => removed.contains e.id) = l at hall
  induction l with
  | nil => rfl
  | cons e l ih =>
      obtain ⟨x, hx⟩ := Option.isSome_iff_exists.mp (hall e List.mem_cons_self)
      rw [List.filterMap_cons_some hx]
      have ih := ih fun e he => hall e (List.mem_cons_of_mem _ he)
      simp only [List.map_cons, List.sum_cons, List.length_cons, hx, Option.getD_some] at ih ⊢
      omega

/-- **Where more events go, the snapshot takes fewer bytes.** -/
theorem Ledgered.withoutAudits_bytes (h : Ledgered s)
    (hlimit : s.commandReceipts.length ≤ limit) (hsub : ∀ id ∈ removed, id ∈ removed') :
    serializedBytes (encode (Stowplan.withoutAudits s removed' limit)) ≤
      serializedBytes (encode (Stowplan.withoutAudits s removed limit)) := by
  have hsame := bytes_of_sameRecords (s := Stowplan.withoutAudits s removed limit)
    (t := Stowplan.withoutAudits s removed' limit) (by
      rw [h.withoutAudits hlimit, h.withoutAudits hlimit]
      exact ⟨rfl, rfl, rfl, rfl⟩)
  suffices hle : historyBytes (Stowplan.withoutAudits s removed' limit) ≤
      historyBytes (Stowplan.withoutAudits s removed limit) by omega
  have hshares := eventsShares h removed
  have hshares' := eventsShares h removed'
  have hshare : (s.audit.map fun e => if removed'.contains e.id then
      receiptWidth ((commandIdForAudit e).getD "") + 3 else jsonBytes (encode e) + 1).sum ≤
      (s.audit.map fun e => if removed.contains e.id then
        receiptWidth ((commandIdForAudit e).getD "") + 3 else jsonBytes (encode e) + 1).sum := by
    refine List.sum_le_sum fun e he => ?_
    obtain ⟨x, hx⟩ := Option.isSome_iff_exists.mp (h.audit e he)
    have hwidth := receiptWidth_event hx
    rw [hx, Option.getD_some]
    by_cases hr : removed.contains e.id = true
    · rw [if_pos hr, if_pos (List.contains_iff_mem.mpr (hsub _ (List.contains_iff_mem.mp hr)))]
    · rw [if_neg hr]
      split
      · exact hwidth
      · exact le_rfl
  have hgone : (s.audit.filter fun e => removed.contains e.id).Sublist
      (s.audit.filter fun e => removed'.contains e.id) :=
    List.monotone_filter_right _ fun e he =>
      List.contains_iff_mem.mpr (hsub _ (List.contains_iff_mem.mp he))
  have hcommands : (goneEvents s removed).Sublist (goneEvents s removed') :=
    hgone.filterMap commandIdForAudit
  have hledger := lastOf_width receiptWidth limit
    ((List.Sublist.refl s.commandReceipts).append hcommands)
  simp only [List.map_append, List.sum_append] at hledger
  rw [h.withoutAudits hlimit, h.withoutAudits hlimit]
  unfold historyBytes
  dsimp only
  rw [listWidth_receipts, listWidth_receipts]
  rcases Nat.eq_or_lt_of_le hcommands.length_le with hlen | hlt
  · -- no event goes that stayed before
    have hsame := hcommands.eq_of_length hlen
    have hkept : (s.audit.filter fun e => !removed'.contains e.id) =
        s.audit.filter fun e => !removed.contains e.id := by
      refine kept_of_gone hgone ?_
      rw [goneEvents_length h, goneEvents_length h] at hlen
      exact hlen
    rw [← hsame, hkept]
  · omega

omit [Host] in
theorem withoutReceipts_receipts (s : WorkspaceState) (removed : List String) :
    withoutReceipts s removed = { s with
      commandReceipts := s.commandReceipts.filter fun id => !removed.contains id } := by
  unfold withoutReceipts
  split
  · rename_i hr
    obtain rfl := List.isEmpty_iff.mp hr
    simp
  · rfl

/-- **Where more receipts go, the snapshot takes fewer bytes.** -/
theorem withoutReceipts_bytes (s : WorkspaceState) (hsub : ∀ id ∈ removed, id ∈ removed') :
    serializedBytes (encode (withoutReceipts s removed')) ≤
      serializedBytes (encode (withoutReceipts s removed)) := by
  rw [withoutReceipts_receipts, withoutReceipts_receipts]
  have hsame := bytes_of_sameRecords
    (s := { s with commandReceipts := s.commandReceipts.filter fun id => !removed.contains id })
    (t := { s with commandReceipts := s.commandReceipts.filter fun id => !removed'.contains id })
    ⟨rfl, rfl, rfl, rfl⟩
  have hreceipts : (s.commandReceipts.filter fun id => !removed'.contains id).Sublist
      (s.commandReceipts.filter fun id => !removed.contains id) := by
    refine List.monotone_filter_right _ fun id hid => ?_
    simp only [Bool.not_eq_true', Bool.eq_false_iff, ne_eq, List.contains_iff_mem] at hid ⊢
    exact fun hin => hid (hsub _ hin)
  have hle := (hreceipts.map receiptWidth).sum_le_sum fun _ _ => Nat.zero_le _
  unfold historyBytes at hsame
  dsimp only at hsame
  rw [listWidth_receipts, listWidth_receipts] at hsame
  omega

end Events

/-! ## 6. The search -/

theorem removalCountLoop_least (fits : Nat → Bool) (fuel : Nat) {low high : Nat}
    (hle : low ≤ high) (hfuel : high - low ≤ fuel) (hhigh : fits high = true)
    (hmono : ∀ i j, i ≤ j → fits i = true → fits j = true) :
    low ≤ removalCountLoop fits fuel low high ∧ removalCountLoop fits fuel low high ≤ high ∧
      fits (removalCountLoop fits fuel low high) = true ∧
      ∀ i, low ≤ i → i < removalCountLoop fits fuel low high → fits i = false := by
  induction fuel generalizing low high with
  | zero =>
      have heq : low = high := by omega
      subst heq
      exact ⟨le_rfl, le_rfl, hhigh, fun i hi hlt => absurd hi (Nat.not_le.mpr hlt)⟩
  | succ fuel ih =>
      unfold removalCountLoop
      by_cases hlt : low < high
      · dsimp only
        rw [if_pos hlt]
        by_cases hmiddle : fits ((low + high) / 2) = true
        · rw [if_pos hmiddle]
          have hbelow : low ≤ (low + high) / 2 := by omega
          obtain ⟨hlow, hup, hfits, hleast⟩ := ih hbelow (by omega) hmiddle
          exact ⟨hlow, by omega, hfits, hleast⟩
        · rw [if_neg hmiddle]
          have habove : (low + high) / 2 + 1 ≤ high := by omega
          obtain ⟨hlow, hup, hfits, hleast⟩ := ih habove (by omega) hhigh
          refine ⟨by omega, hup, hfits, fun i _ hi => ?_⟩
          by_cases hbelow : i ≤ (low + high) / 2
          · -- what fits at `i` would fit in the middle
            exact Bool.eq_false_iff.mpr fun hfit => hmiddle (hmono i _ hbelow hfit)
          · exact hleast i (by omega) hi
      · rw [if_neg hlt]
        have heq : low = high := by omega
        subst heq
        exact ⟨le_rfl, le_rfl, hhigh, fun i hi hlt => absurd hi (Nat.not_le.mpr hlt)⟩

section Search

variable [Host] {candidateIds : List String} {stateWithout : List String → WorkspaceState}
  {limit : Nat}

/-- The first `k` candidates are the shortest prefix that makes the state fit. -/
structure ShortestPrefix (candidateIds : List String)
    (stateWithout : List String → WorkspaceState) (limit k : Nat) : Prop where
  most : k ≤ candidateIds.length
  fits : serializedBytes (encode (stateWithout (candidateIds.take k))) ≤ limit
  least : ∀ j < k, limit < serializedBytes (encode (stateWithout (candidateIds.take j)))

/-- **The search finds the shortest prefix**, where more removals never take more bytes. -/
theorem minimalRemovalCount_shortest (hne : candidateIds ≠ [])
    (hnone : limit < serializedBytes (encode (stateWithout [])))
    (hall : serializedBytes (encode (stateWithout candidateIds)) ≤ limit)
    (hmono : ∀ removed removed' : List String, (∀ id ∈ removed, id ∈ removed') →
      serializedBytes (encode (stateWithout removed')) ≤
        serializedBytes (encode (stateWithout removed))) :
    ShortestPrefix candidateIds stateWithout limit
      (minimalRemovalCount candidateIds stateWithout limit) := by
  have hpos : 0 < candidateIds.length := List.length_pos_of_ne_nil hne
  have htake : ∀ i j, i ≤ j → ∀ id ∈ candidateIds.take i, id ∈ candidateIds.take j :=
    fun i j hij id hid => (List.take_sublist_take_left hij).subset hid
  obtain ⟨hlow, hhigh, hfits, hleast⟩ := removalCountLoop_least
    (fun middle => decide (serializedBytes (encode (stateWithout
      (candidateIds.take middle))) ≤ limit))
    candidateIds.length hpos (by omega)
    (by rw [List.take_length]; exact decide_eq_true hall)
    (fun i j hij hfit => decide_eq_true
      ((hmono _ _ (htake i j hij)).trans (of_decide_eq_true hfit)))
  refine ⟨hhigh, of_decide_eq_true hfits, fun j hlt => ?_⟩
  rcases Nat.eq_zero_or_pos j with rfl | hj
  · exact hnone
  · exact Nat.lt_of_not_le (of_decide_eq_false (hleast j hj hlt))

end Search

end Stowplan
