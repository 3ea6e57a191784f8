/-
  File:      Stowplan/Domain/Stored.lean
  Subject:   WHAT STORING A SETTLED STATE LEAVES OF IT.

  The text of a settled state reads back as the state, and normalising changes nothing in it.
  What is read from any stored state is settled. So a state is stored and loaded any number of
  times without a change, and commands go on from what was loaded.

  * `Settled.normalize`, `Settled.reload`: nothing changes;
  * `settled_of_reload`: what was read is settled.
-/
import Stowplan.Domain.Settled

namespace Stowplan

open JsValue Keyed

/-! ## 1. Normalising a settled state -/

/-- A whole item has no old name to replace. -/
theorem normalizeItemDescription_whole {v : JsValue} (h : wholeItem v = true) :
    normalizeItemDescription v = v := by
  unfold wholeItem at h
  unfold normalizeItemDescription
  refine if_pos ?_
  simp only [Bool.or_eq_true, Bool.and_eq_true] at h ⊢
  exact h.imp_right And.left

/-- A whole item has its order. -/
theorem orderRecord_whole {v : JsValue} (h : wholeItem v = true) (maps : OrderMaps) :
    orderRecord maps v = (maps, v) := by
  unfold wholeItem at h
  unfold orderRecord
  refine if_pos ?_
  simp only [Bool.or_eq_true, Bool.and_eq_true] at h ⊢
  tauto

/-- A pass that changes no element changes no list. -/
theorem orderEach_same {α : Type} {f : OrderMaps → α → OrderMaps × α} {l : List α}
    (h : ∀ maps, ∀ a ∈ l, (f maps a).2 = a) (maps : OrderMaps) : (orderEach f maps l).2 = l := by
  induction l generalizing maps with
  | nil => rfl
  | cons a l ih =>
      show (f maps a).2 :: (orderEach f (f maps a).1 l).2 = a :: l
      rw [h maps a List.mem_cons_self, ih fun m b hb => h m b (List.mem_cons_of_mem _ hb)]

/-- A settled patch is as normalising leaves it. -/
theorem describePatch_settled {p : FieldPatch} (h : SettledPatch p) : describePatch p = p := by
  unfold describePatch
  by_cases ht : p.target = .item
  · rw [if_neg (fun hne => hne ht), if_neg (h.renamed ht)]
    split
    · rename_i hpath
      obtain ⟨ha, hb⟩ := h.whole ht hpath
      rw [normalizeItemDescription_whole ha, normalizeItemDescription_whole hb]
    · rfl
  · rw [if_pos ht]

/-- It needs no order either. -/
theorem orderPatchTyped_settled {p : FieldPatch} (h : SettledPatch p) (maps : OrderMaps) :
    orderPatchTyped maps p = (maps, p) := by
  unfold orderPatchTyped
  split
  · rfl
  · rename_i hwhole
    simp only [ne_eq, decide_not, Bool.or_eq_true, Bool.not_eq_true', decide_eq_false_iff_not,
      not_or, not_not] at hwhole
    obtain ⟨ha, hb⟩ := h.whole hwhole.1 hwhole.2
    simp only [orderRecord_whole ha, orderRecord_whole hb]

/-- Values that differ stay as they are. -/
theorem uniq_of_nodup {l : List String} (h : l.Nodup) : uniq l = l := by
  have hfresh : ∀ (l seen : List String), l.Nodup → (∀ x ∈ l, x ∉ seen) →
      Forest.fresh id seen l = l := by
    intro l
    induction l with
    | nil => exact fun _ _ _ => rfl
    | cons x l ih =>
        intro seen hn hout
        rw [List.nodup_cons] at hn
        show (if x ∈ seen then _ else x :: Forest.fresh id (x :: seen) l) = x :: l
        rw [if_neg (hout x List.mem_cons_self), ih _ hn.2]
        intro y hy hin
        rcases List.mem_cons.mp hin with rfl | hin
        · exact hn.1 hy
        · exact hout y (List.mem_cons_of_mem _ hy) hin
  exact hfresh l [] h fun _ _ => List.not_mem_nil

/-- **Normalising a settled state changes nothing.** -/
theorem Settled.normalize {s : WorkspaceState} (h : Settled s) : normalizeState s = s := by
  have hitems : (orderEach orderTyped ⟨[], []⟩ s.items).2 = s.items := by
    refine orderEach_same (fun maps i hi => ?_) _
    exact if_pos (item_numbers.mp (h.records.items i hi)).2.1
  have hdescribed : (s.activities.map fun a =>
      { a with patches := a.patches.map describePatch }) = s.activities := by
    refine (List.map_congr_left fun a ha => ?_).trans (List.map_id _)
    have hpatches : a.patches.map describePatch = a.patches :=
      (List.map_congr_left fun p hp => describePatch_settled (h.patches a ha p hp)).trans
        (List.map_id _)
    rw [hpatches]
    rfl
  have hordered : ∀ maps, (orderEach orderActivityTyped maps s.activities).2 = s.activities := by
    refine fun maps => orderEach_same (fun m a ha => ?_) maps
    have hpatches : (orderEach orderPatchTyped m a.patches).2 = a.patches :=
      orderEach_same (fun k p hp => by rw [orderPatchTyped_settled (h.patches a ha p hp)]) m
    show { a with patches := (orderEach orderPatchTyped m a.patches).2 } = a
    rw [hpatches]
  unfold normalizeState
  simp only [hdescribed, hordered, hitems, uniq_of_nodup h.receipts]

/-! ## 2. The text of a settled state -/

theorem hasOwn_of_get {v : JsValue} {k : String} (h : v.get k ≠ .undefined) :
    v.hasOwn k = true := by
  cases v with
  | obj fs =>
      by_contra hout
      exact h (lookup_of_not_mem fun hin => hout (List.contains_iff_mem.mpr hin))
  | _ => exact absurd rfl h

/-- Writing back what is there. -/
theorem setKey_get {v : JsValue} {k : String} (h : v.hasOwn k = true) :
    v.setKey k (v.get k) = v := by
  cases v with
  | obj fs => exact congrArg JsValue.obj (setEntry_lookup (List.contains_iff_mem.mp h))
  | _ => rfl

theorem updateKey_same {v : JsValue} {k : String} {f : JsValue → JsValue}
    (h : f (v.get k) = v.get k) : updateKey v k f = v := by
  unfold updateKey
  split
  · rename_i hk
    rw [h, setKey_get hk]
  · rfl

theorem orderKey_same {v : JsValue} {k : String} {maps : OrderMaps}
    {f : OrderMaps → JsValue → OrderMaps × JsValue} (h : (f maps (v.get k)).2 = v.get k) :
    (orderKey f k maps v).2 = v := by
  unfold orderKey
  split
  · rename_i hk
    show v.setKey k (f maps (v.get k)).2 = v
    rw [h, setKey_get hk]
  · rfl

theorem mapElems_same {f : JsValue → JsValue} {xs : List JsValue} (h : ∀ x ∈ xs, f x = x) :
    mapElems f (.arr xs) = .arr xs :=
  congrArg JsValue.arr ((List.map_congr_left h).trans (List.map_id _))

theorem orderElems_same {f : OrderMaps → JsValue → OrderMaps × JsValue} {xs : List JsValue}
    (h : ∀ maps, ∀ x ∈ xs, (f maps x).2 = x) (maps : OrderMaps) :
    (orderElems f maps (.arr xs)).2 = .arr xs := by
  have hall : ∀ maps, (orderAll f maps xs).2 = xs := by
    induction xs with
    | nil => exact fun _ => rfl
    | cons x xs ih =>
        intro m
        show (f m x).2 :: (orderAll f (f m x).1 xs).2 = x :: xs
        rw [h m x List.mem_cons_self, ih fun k y hy => h k y (List.mem_cons_of_mem _ hy)]
  exact congrArg JsValue.arr (hall maps)

/-- A loose value comes back from its text as it was. -/
theorem throughText_loose {v : JsValue} (h : loose v = true) : throughText v = v := by
  rcases loose_iff.mp h with rfl | h
  · rfl
  · exact throughText_of_plain h

theorem field_of_get {α : Type} [Codec α] {v : JsValue} {key : String} {a : α}
    (h : v.get key = encode a) : field v key = some a := by
  rw [field, h, Codec.decode_encode]

section Text

variable {s : WorkspaceState} {a : ActivityRecord} {p : FieldPatch}

/-- A patch as JSON has each key once. -/
theorem keys_encode_patch (p : FieldPatch) : (encode p).keys.Nodup :=
  (by decide : ["after", "before", "id", "path", "target"].Nodup)

theorem keys_encode_activity (a : ActivityRecord) : (encode a).keys.Nodup :=
  (by decide : ["actorId", "commandId", "id", "label", "patches", "status", "subjectIds",
    "timestamp", "undoneAt"].Nodup)

/-- The properties of the text of a patch. -/
theorem get_patchText (h : SettledPatch p) :
    (throughText (encode p)).get "after" = p.after ∧
      (throughText (encode p)).get "before" = p.before ∧
      (throughText (encode p)).get "id" = encode p.id ∧
      (throughText (encode p)).get "path" = encode p.path ∧
      (throughText (encode p)).get "target" = encode p.target := by
  have hk := keys_encode_patch p
  simp only [get_throughText hk]
  exact ⟨throughText_loose h.after, throughText_loose h.before, rfl, rfl, rfl⟩

/-- A settled patch is read back from its text. -/
theorem decode_patchText (h : SettledPatch p) : decode (throughText (encode p)) = some p := by
  obtain ⟨h1, h2, h3, h4, h5⟩ := get_patchText h
  have hid := field_of_get h3
  have hpath := field_of_get h4
  have htarget := field_of_get h5
  simp only [decode, h1, h2, hid, hpath, htarget, Option.bind_eq_bind, Option.bind_some,
    Option.pure_def]

theorem target_item_iff {t : PatchTarget} : encode t = JsValue.str "item" ↔ t = .item := by
  cases t <;> simp [encode, PatchTarget.word]

/-- Normalising its text changes nothing. -/
theorem describe_patchText (h : SettledPatch p) :
    normalizePatchDescription (throughText (encode p)) = throughText (encode p) := by
  obtain ⟨h1, h2, -, h4, h5⟩ := get_patchText h
  unfold normalizePatchDescription
  rw [h4, h5]
  split
  · rfl
  · rename_i hitem
    simp only [ne_eq, Bool.or_eq_true, decide_eq_true_eq, not_or, not_not, target_item_iff] at hitem
    split
    · rename_i hnotes
      exact absurd (JsValue.str.inj hnotes) (h.renamed hitem.2)
    · split
      · rename_i hempty
        obtain ⟨ha, hb⟩ := h.whole hitem.2 (JsValue.str.inj hempty)
        rw [updateKey_same (k := "before") (by rw [h2, normalizeItemDescription_whole hb]),
          updateKey_same (by rw [h1, normalizeItemDescription_whole ha])]
      · rfl

/-- Nor does the pass that gives orders. -/
theorem order_patchText (h : SettledPatch p) (maps : OrderMaps) :
    (orderPatch maps (throughText (encode p))).2 = throughText (encode p) := by
  obtain ⟨h1, h2, -, h4, h5⟩ := get_patchText h
  unfold orderPatch
  rw [h4, h5]
  split
  · rfl
  · rename_i hwhole
    simp only [ne_eq, Bool.or_eq_true, decide_eq_true_eq, not_or, not_not, target_item_iff] at hwhole
    obtain ⟨ha, hb⟩ := h.whole hwhole.1.2 (JsValue.str.inj hwhole.2)
    have hbefore : (orderKey orderRecord "before" maps (throughText (encode p))).2 =
        throughText (encode p) :=
      orderKey_same (by rw [h2, orderRecord_whole hb])
    simp only [hbefore]
    exact orderKey_same (by rw [h1, orderRecord_whole ha])

/-- The patches in the text of an activity. -/
theorem patches_activityText (a : ActivityRecord) :
    (throughText (encode a)).get "patches" =
      .arr (a.patches.map fun p => throughText (encode p)) := by
  rw [get_throughText (keys_encode_activity a)]
  have hne : ∀ p : FieldPatch, encode p ≠ .undefined := fun _ h => nomatch h
  exact throughText_arr hne a.patches

/-- An activity of settled patches is as normalising leaves it. -/
theorem describe_activityText (h : Settles a.patches) :
    mapPatches normalizePatchDescription (throughText (encode a)) = throughText (encode a) := by
  unfold mapPatches
  split
  · refine updateKey_same ?_
    rw [patches_activityText]
    refine mapElems_same fun x hx => ?_
    obtain ⟨p, hp, rfl⟩ := List.mem_map.mp hx
    exact describe_patchText (h p hp)
  · rfl

/-- It needs no orders either. -/
theorem order_activityText (h : Settles a.patches) (maps : OrderMaps) :
    (orderActivity maps (throughText (encode a))).2 = throughText (encode a) := by
  unfold orderActivity
  split
  · rfl
  · refine orderKey_same ?_
    rw [patches_activityText]
    refine orderElems_same (fun m x hx => ?_) maps
    obtain ⟨p, hp, rfl⟩ := List.mem_map.mp hx
    exact order_patchText (h p hp) m

theorem decodeList_texts {α : Type} [Codec α] {l : List α}
    (h : ∀ a ∈ l, decode (throughText (encode a)) = some a) :
    decodeList (l.map fun a => throughText (encode a)) = some l := by
  induction l with
  | nil => rfl
  | cons a l ih =>
      rw [List.map_cons, decodeList, h a List.mem_cons_self,
        ih fun b hb => h b (List.mem_cons_of_mem _ hb)]

/-- It is read back from its text. -/
theorem decode_activityText (h : Settles a.patches) :
    decode (throughText (encode a)) = some a := by
  have hk := keys_encode_activity a
  have hpatches : field (throughText (encode a)) "patches" = some a.patches := by
    unfold field
    rw [patches_activityText]
    exact decodeList_texts fun p hp => decode_patchText (h p hp)
  have hfield : ∀ {β : Type} [Codec β] [Wordy β] (key : String) (b : β),
      (encode a).get key = encode b → field (throughText (encode a)) key = some b := by
    intro β _ _ key b hb
    refine field_of_get ?_
    rw [get_throughText hk, hb, throughText_of_plain (plain_wordy b)]
  simp only [decode, hpatches, hfield "actorId" a.actorId rfl,
    hfield "commandId" a.commandId rfl, hfield "id" a.id rfl, hfield "label" a.label rfl,
    hfield "status" a.status rfl, hfield "subjectIds" a.subjectIds rfl,
    hfield "timestamp" a.timestamp rfl, hfield "undoneAt" a.undoneAt rfl, Option.bind_eq_bind,
    Option.bind_some, Option.pure_def]

/-- The properties of the text of a settled state. -/
structure StateText (s : WorkspaceState) (v : JsValue) : Prop where
  activities : v.get "activities" = .arr (s.activities.map fun a => throughText (encode a))
  audit : v.get "audit" = encode s.audit
  receipts : v.get "commandReceipts" = encode s.commandReceipts
  items : v.get "items" = encode s.items
  locations : v.get "locations" = encode s.locations
  plans : v.get "plans" = encode s.plans
  version : v.get "schemaVersion" = encode schemaVersion
  workspace : v.get "workspace" = encode s.workspace

/-- The text of a settled state. -/
theorem stateText (h : Settled s) : StateText s (throughText (encode s)) := by
  have hk := keys_encode_state s
  have hne : ∀ a : ActivityRecord, encode a ≠ .undefined := fun _ h => nomatch h
  have hplain : ∀ {w : JsValue} {k : String}, (encode s).get k = w → plain w = true →
      (throughText (encode s)).get k = w := by
    intro w k hw hp
    rw [get_throughText hk, hw, throughText_of_plain hp]
  refine ⟨?_, hplain rfl (plain_wordy s.audit), hplain rfl (plain_wordy s.commandReceipts),
    hplain rfl (plain_encode_list.mpr h.records.items),
    hplain rfl (plain_encode_list.mpr h.records.locations),
    hplain rfl (plain_encode_list.mpr h.records.plans),
    hplain rfl (isFinite_of_safe (show JsNumber.safeInt schemaVersion = true by decide)),
    hplain rfl h.records.workspace⟩
  rw [get_throughText hk]
  exact throughText_arr hne s.activities

/-- The text of a settled state is normal. -/
theorem normalize_stateText (h : Settled s) :
    normalizeWorkspaceState (throughText (encode s)) = throughText (encode s) := by
  have ht := stateText h
  rw [normalizeWorkspaceState_eq ht.version (by rw [ht.items]; rfl)]
  have hdescribed : describedState (throughText (encode s)) = throughText (encode s) := by
    unfold describedState
    rw [updateKey_same (k := "items") (by
      rw [ht.items, mapElems_encode (g := fun i => i) normalizeItemDescription_item,
        List.map_id'])]
    refine updateKey_same ?_
    rw [ht.activities]
    refine mapElems_same fun x hx => ?_
    obtain ⟨a, ha, rfl⟩ := List.mem_map.mp hx
    exact describe_activityText (h.patches a ha)
  have hreceived : receivedState (throughText (encode s)) = throughText (encode s) := by
    have hd := dedupe_strings [] s.commandReceipts
    rw [List.map_nil, show Forest.fresh id [] s.commandReceipts = s.commandReceipts from
      uniq_of_nodup h.receipts] at hd
    have hvalue : JsValue.arr (dedupe [] (s.commandReceipts.map encode)) =
        (throughText (encode s)).get "commandReceipts" := by
      rw [ht.receipts]
      exact congrArg JsValue.arr hd
    have hset : receivedState (throughText (encode s)) = (throughText (encode s)).setKey
        "commandReceipts" (.arr (dedupe [] (s.commandReceipts.map encode))) := by
      unfold receivedState
      rw [ht.receipts]
      rfl
    rw [hset, hvalue]
    refine setKey_get (hasOwn_of_get ?_)
    rw [ht.receipts]
    intro h
    cases h
  rw [hdescribed, hreceived]
  unfold orderedState
  have hitems : (orderKey (orderElems orderItem) "items" ⟨[], []⟩
      (throughText (encode s))).2 = throughText (encode s) := by
    refine orderKey_same ?_
    rw [ht.items, orderElems_encode orderItem_encode]
    exact congrArg encode (orderEach_same (fun maps i hi =>
      if_pos (item_numbers.mp (h.records.items i hi)).2.1) _)
  simp only [hitems]
  refine orderKey_same ?_
  rw [ht.activities]
  refine orderElems_same (fun m x hx => ?_) _
  obtain ⟨a, ha, rfl⟩ := List.mem_map.mp hx
  exact order_activityText (h.patches a ha) m

/-- **A settled state reads back from its text as it was.** -/
theorem Settled.reload (h : Settled s) : reload s = some s := by
  have ht := stateText h
  have hactivities : field (throughText (encode s)) "activities" = some s.activities := by
    rw [field, ht.activities]
    exact decodeList_texts fun a ha => decode_activityText (h.patches a ha)
  unfold Stowplan.reload
  rw [normalize_stateText h]
  simp only [decode, hactivities, field_of_get ht.audit, field_of_get ht.receipts,
    field_of_get ht.items, field_of_get ht.locations, field_of_get ht.plans,
    field_of_get ht.workspace, Option.bind_eq_bind, Option.bind_some, Option.pure_def]

end Text

/-! ## 3. What is read is settled -/

/-- Only finite orders were given so far. -/
structure FiniteMaps (maps : OrderMaps) : Prop where
  next : ∀ p ∈ maps.nextOrder, p.2.isFinite = true
  given : ∀ p ∈ maps.orderByItemId, p.2.isFinite = true

/-- An order from a map of numbers is a number. -/
theorem isFinite_orderOf {key : String} {l : List (String × JsNumber)} {x : JsNumber}
    (h : ∀ p ∈ l, p.2.isFinite = true) (hx : orderOf key l = some x) : x.isFinite = true := by
  obtain ⟨p, hp, rfl⟩ := Option.map_eq_some_iff.mp hx
  exact h p (findKey_some hp).1

theorem isFinite_getD {o : Option JsNumber} (h : ∀ x, o = some x → x.isFinite = true) :
    (o.getD 0).isFinite = true := by
  cases o with
  | none => decide +kernel
  | some x => exact h x rfl

/-- Counting keeps the maps finite. -/
theorem FiniteMaps.count {maps : OrderMaps} (h : FiniteMaps maps) (key : String) {x : JsNumber}
    (hx : x.isFinite = true) : FiniteMaps (maps.count key x) := by
  refine ⟨fun p hp => ?_, h.given⟩
  rcases List.mem_cons.mp hp with rfl | hp
  · exact JsNumber.isFinite_max (isFinite_getD fun y hy => isFinite_orderOf h.next hy)
      (JsNumber.isFinite_add_one hx)
  · exact h.next p hp

/-- So does assigning an order. -/
theorem FiniteMaps.assign {maps : OrderMaps} (h : FiniteMaps maps) (key : String) {x : JsNumber}
    (hx : x.isFinite = true) : FiniteMaps (maps.assign key x) := by
  refine ⟨h.next, fun p hp => ?_⟩
  rcases List.mem_cons.mp hp with rfl | hp
  · exact hx
  · exact h.given p hp

/-- A list changed with finite maps carried along. -/
theorem orderAll_finite {P Q : JsValue → Prop} {f : OrderMaps → JsValue → OrderMaps × JsValue}
    (hf : ∀ maps v, FiniteMaps maps → P v → FiniteMaps (f maps v).1 ∧ Q (f maps v).2)
    {maps : OrderMaps} {l : List JsValue} (hm : FiniteMaps maps) (hx : ∀ x ∈ l, P x) :
    FiniteMaps (orderAll f maps l).1 ∧ ∀ y ∈ (orderAll f maps l).2, Q y := by
  induction l generalizing maps with
  | nil => exact ⟨hm, fun _ h => absurd h List.not_mem_nil⟩
  | cons x l ih =>
      obtain ⟨hm', hq⟩ := hf maps x hm (hx x List.mem_cons_self)
      obtain ⟨hrest, hall⟩ := ih hm' fun y hy => hx y (List.mem_cons_of_mem _ hy)
      refine ⟨hrest, fun y hy => ?_⟩
      rcases List.mem_cons.mp hy with rfl | hy
      · exact hq
      · exact hall y hy

/-- Replacing the old name keeps a value plain. -/
theorem plain_normalizeItemDescription {v : JsValue} (h : plain v = true) :
    plain (normalizeItemDescription v) = true := by
  unfold normalizeItemDescription
  split
  · exact h
  · rename_i hnotes
    simp only [Bool.or_eq_true, Bool.not_eq_true', not_or, Bool.not_eq_false] at hnotes
    refine plain_delKey ?_ _
    split
    · exact h
    · exact plain_setKey h (plain_get h hnotes.2) _

theorem isFinite_numberOf {v : JsValue} (h : v.isFiniteNum = true) :
    (numberOf v).isFinite = true := by
  cases v with
  | num x => exact h
  | _ => cases h

/-- The pass over the items keeps values plain and maps finite. -/
theorem orderItem_finite {maps : OrderMaps} {v : JsValue} (hm : FiniteMaps maps)
    (hv : plain v = true) :
    FiniteMaps (orderItem maps v).1 ∧ plain (orderItem maps v).2 = true := by
  unfold orderItem
  split
  · exact ⟨hm, hv⟩
  · have hrest : ∀ w : JsValue, plain w = true →
        FiniteMaps (if (w.get "order").isFiniteNum then
          ((if (w.get "id").isString then maps.assign (valueId w) (numberOf (w.get "order"))
            else maps).count (v.get "locationId").text (numberOf (w.get "order")), w)
          else (maps, w)).1 ∧
        plain (if (w.get "order").isFiniteNum then
          ((if (w.get "id").isString then maps.assign (valueId w) (numberOf (w.get "order"))
            else maps).count (v.get "locationId").text (numberOf (w.get "order")), w)
          else (maps, w)).2 = true := by
      intro w hw
      split
      · rename_i hfinite
        have hn := isFinite_numberOf hfinite
        refine ⟨FiniteMaps.count ?_ _ hn, hw⟩
        split
        · exact hm.assign _ hn
        · exact hm
      · exact ⟨hm, hw⟩
    refine hrest _ ?_
    split
    · exact hv
    · exact plain_setKey (w := .num _) hv
        (isFinite_getD fun y hy => isFinite_orderOf hm.next hy) _

/-- The value uses no old name. -/
def renamedItem (v : JsValue) : Bool := !v.isRecord || !v.hasOwn "notes"

/-- Afterwards no item has its old name. -/
theorem renamed_normalizeItemDescription (v : JsValue) :
    renamedItem (normalizeItemDescription v) = true := by
  unfold normalizeItemDescription
  split
  · rename_i h
    exact h
  · unfold renamedItem
    rw [Bool.or_eq_true, Bool.not_eq_true', Bool.not_eq_true']
    refine .inr ?_
    generalize (if v.hasOwn "description" then v
      else v.setKey "description" (v.get "notes")) = w
    cases w with
    | obj fs =>
        refine Bool.eq_false_iff.mpr fun h => ?_
        obtain ⟨q, hq, hk⟩ := List.mem_map.mp (List.contains_iff_mem.mp h)
        simpa [hk] using (List.mem_filter.mp hq).2
    | _ => rfl

/-- The pass over a patched item makes it whole. -/
theorem orderRecord_finite {maps : OrderMaps} {v : JsValue} (hm : FiniteMaps maps)
    (hv : loose v = true) (hn : renamedItem v = true) :
    FiniteMaps (orderRecord maps v).1 ∧ loose (orderRecord maps v).2 = true ∧
      wholeItem (orderRecord maps v).2 = true := by
  unfold orderRecord
  split
  · rename_i h
    refine ⟨hm, hv, ?_⟩
    unfold renamedItem at hn
    unfold wholeItem
    simp only [Bool.or_eq_true, Bool.and_eq_true] at h hn ⊢
    tauto
  · rename_i h
    simp only [Bool.or_eq_true, Bool.not_eq_true', not_or, Bool.not_eq_false,
      Bool.not_eq_true] at h
    obtain ⟨⟨⟨hrecord, -⟩, -⟩, -⟩ := h
    have hplain : plain v = true := by
      rcases loose_iff.mp hv with rfl | hp
      · cases hrecord
      · exact hp
    have hassigned : (((orderOf (valueId v) maps.orderByItemId).or
        (orderOf (v.get "locationId").text maps.nextOrder)).getD 0).isFinite = true := by
      refine isFinite_getD fun y hy => ?_
      rcases Option.or_eq_some_iff.mp hy with hy | ⟨-, hy⟩
      · exact isFinite_orderOf hm.given hy
      · exact isFinite_orderOf hm.next hy
    refine ⟨(hm.assign _ hassigned).count _ hassigned,
      loose_of_plain (plain_setKey (w := .num _) hplain hassigned _), ?_⟩
    have hnotes : v.hasOwn "notes" = false := by
      unfold renamedItem at hn
      rw [hrecord] at hn
      simpa using hn
    have hkept : (v.setKey "order" (.num (((orderOf (valueId v) maps.orderByItemId).or
        (orderOf (v.get "locationId").text maps.nextOrder)).getD 0))).hasOwn "notes" = false := by
      cases v with
      | obj fs =>
          refine Bool.eq_false_iff.mpr fun hin => ?_
          rcases mem_keys_setEntry.mp (List.contains_iff_mem.mp hin) with hin | hin
          · exact absurd hin (by decide)
          · exact absurd (hnotes.symm.trans (List.contains_iff_mem.mpr hin)) (by decide)
      | _ => cases hrecord
    unfold wholeItem
    rw [hkept, get_setKey_same hrecord]
    have hfinite : (JsValue.num (((orderOf (valueId v) maps.orderByItemId).or
        (orderOf (v.get "locationId").text maps.nextOrder)).getD 0)).isFiniteNum = true := hassigned
    rw [hfinite]
    simp

/-- A key that is not there reads as undefined. -/
theorem get_of_not_hasOwn {v : JsValue} {k : String} (h : v.hasOwn k = false) :
    v.get k = .undefined := by
  by_contra hne
  exact absurd (h.symm.trans (hasOwn_of_get hne)) (by decide)

/-- A key that is updated reads as its new value. -/
theorem get_updateKey {v : JsValue} {f : JsValue → JsValue} {k : String}
    (hf : f .undefined = .undefined) : (updateKey v k f).get k = f (v.get k) := by
  cases hk : v.hasOwn k with
  | true => exact get_updateKey_same hk
  | false =>
      unfold updateKey
      rw [hk, get_of_not_hasOwn hk, hf]
      exact get_of_not_hasOwn hk

theorem get_orderKey {f : OrderMaps → JsValue → OrderMaps × JsValue} {maps : OrderMaps}
    {v : JsValue} {k : String} (hf : f maps .undefined = (maps, .undefined)) :
    (orderKey f k maps v).2.get k = (f maps (v.get k)).2 ∧
      (orderKey f k maps v).1 = (f maps (v.get k)).1 := by
  cases hk : v.hasOwn k with
  | true =>
      refine ⟨get_orderKey_same hk, ?_⟩
      unfold orderKey
      rw [if_pos hk]
  | false =>
      unfold orderKey
      rw [hk, get_of_not_hasOwn hk, hf]
      exact ⟨get_of_not_hasOwn hk, rfl⟩

/-- A patch of text after one stage of normalising, where `whole` is what the stage makes of the
    value of a whole item. -/
structure PatchValue (whole : JsValue → Bool) (x : JsValue) : Prop where
  after : loose (x.get "after") = true
  before : loose (x.get "before") = true
  item : x.get "target" = .str "item" → x.get "path" ≠ .str "notes" ∧
    (x.get "path" = .str "" → whole (x.get "after") = true ∧ whole (x.get "before") = true)

theorem loose_normalizeItemDescription {v : JsValue} (h : loose v = true) :
    loose (normalizeItemDescription v) = true := by
  rcases loose_iff.mp h with rfl | h
  · rfl
  · exact loose_of_plain (plain_normalizeItemDescription h)

/-- The text of a patch, after the first pass. -/
theorem describe_patchValue {x : JsValue} (h : plain x = true) :
    PatchValue renamedItem (normalizePatchDescription x) := by
  have ha := loose_get h "after"
  have hb := loose_get h "before"
  unfold normalizePatchDescription
  split
  · rename_i hother
    simp only [Bool.or_eq_true, Bool.not_eq_true', ne_eq, decide_not,
      decide_eq_false_iff_not] at hother
    refine ⟨ha, hb, fun ht => ?_⟩
    rcases hother with hr | hne
    · cases x with
      | obj fs => cases hr
      | _ => cases ht
    · exact absurd ht hne
  · split
    · have hr : x.isRecord = true := by
        cases x with
        | obj fs => rfl
        | _ => rename_i hnotes; cases hnotes
      refine ⟨by rwa [get_setKey_ne (by decide)], by rwa [get_setKey_ne (by decide)], fun _ => ?_⟩
      rw [get_setKey_same hr]
      exact ⟨by simp, fun h => by simp at h⟩
    · rename_i hnotes
      split
      · have hafter : (updateKey (updateKey x "before" normalizeItemDescription) "after"
            normalizeItemDescription).get "after" = normalizeItemDescription (x.get "after") := by
          rw [get_updateKey rfl, get_updateKey_ne (by decide)]
        have hbefore : (updateKey (updateKey x "before" normalizeItemDescription) "after"
            normalizeItemDescription).get "before" = normalizeItemDescription (x.get "before") := by
          rw [get_updateKey_ne (by decide), get_updateKey rfl]
        have hpath : (updateKey (updateKey x "before" normalizeItemDescription) "after"
            normalizeItemDescription).get "path" = x.get "path" := by
          rw [get_updateKey_ne (by decide), get_updateKey_ne (by decide)]
        refine ⟨by rw [hafter]; exact loose_normalizeItemDescription ha,
          by rw [hbefore]; exact loose_normalizeItemDescription hb, fun _ => ?_⟩
        rw [hpath, hafter, hbefore]
        exact ⟨hnotes, fun _ => ⟨renamed_normalizeItemDescription _,
          renamed_normalizeItemDescription _⟩⟩
      · rename_i hempty
        exact ⟨ha, hb, fun _ => ⟨hnotes, fun h => absurd h hempty⟩⟩

theorem orderRecord_undefined (maps : OrderMaps) :
    orderRecord maps .undefined = (maps, .undefined) := rfl

/-- The same after the second: its items are whole. -/
theorem order_patchValue {x : JsValue} {maps : OrderMaps} (hm : FiniteMaps maps)
    (h : PatchValue renamedItem x) :
    FiniteMaps (orderPatch maps x).1 ∧ PatchValue wholeItem (orderPatch maps x).2 := by
  unfold orderPatch
  split
  · rename_i hother
    simp only [Bool.or_eq_true, Bool.not_eq_true', ne_eq, decide_not,
      decide_eq_false_iff_not] at hother
    refine ⟨hm, h.after, h.before, fun ht => ⟨(h.item ht).1, fun hp => ?_⟩⟩
    rcases hother with (hr | hne) | hne
    · cases x with
      | obj fs => cases hr
      | _ => cases ht
    · exact absurd ht hne
    · exact absurd hp hne
  · rename_i hitem
    simp only [Bool.or_eq_true, Bool.not_eq_true', ne_eq, decide_not, decide_eq_false_iff_not,
      not_or, Bool.not_eq_false, not_not] at hitem
    obtain ⟨⟨-, ht⟩, hp⟩ := hitem
    obtain ⟨hnotes, hwhole⟩ := h.item ht
    obtain ⟨hra, hrb⟩ := hwhole hp
    obtain ⟨hm1, hl1, hw1⟩ := orderRecord_finite hm h.before hrb
    obtain ⟨hget1, hmaps1⟩ := get_orderKey (v := x) (k := "before") (orderRecord_undefined maps)
    simp only
    generalize hy : (orderKey orderRecord "before" maps x).2 = y at hget1
    generalize hm' : (orderKey orderRecord "before" maps x).1 = maps' at hmaps1
    have hkept : ∀ k, k ≠ "before" → y.get k = x.get k := by
      intro k hk
      rw [← hy, get_orderKey_ne hk.symm]
    have hma : FiniteMaps maps' := by
      rw [hmaps1]
      exact hm1
    obtain ⟨hm2, hl2, hw2⟩ := orderRecord_finite hma
      (v := y.get "after") (by rw [hkept "after" (by decide)]; exact h.after)
      (by rw [hkept "after" (by decide)]; exact hra)
    obtain ⟨hget2, hmaps2⟩ := get_orderKey (v := y) (k := "after") (orderRecord_undefined maps')
    have hpath : (orderKey orderRecord "after" maps' y).2.get "path" = x.get "path" :=
      (get_orderKey_ne (by decide)).trans (hkept "path" (by decide))
    have hbefore : (orderKey orderRecord "after" maps' y).2.get "before" =
        (orderRecord maps (x.get "before")).2 :=
      (get_orderKey_ne (by decide)).trans hget1
    refine ⟨by rw [hmaps2]; exact hm2, by rw [hget2]; exact hl2, ?_, fun _ => ?_⟩
    · rw [hbefore]
      exact hl1
    · rw [hpath, hbefore, hget2]
      exact ⟨hnotes, fun _ => ⟨hw2, hw1⟩⟩

/-- What a patch is read from tells that it is settled. -/
theorem settled_of_value {x : JsValue} {p : FieldPatch} (h : PatchValue wholeItem x)
    (hd : decode x = some p) : SettledPatch p := by
  simp only [decode, Option.bind_eq_bind, Option.bind_eq_some_iff, Option.pure_def,
    Option.some.injEq] at hd
  obtain ⟨_, -, path, hpath, target, htarget, rfl⟩ := hd
  have hp : x.get "path" = .str path := by
    unfold field at hpath
    revert hpath
    cases x.get "path" <;> simp [decode]
  have ht : target = .item → x.get "target" = .str "item" := by
    rintro rfl
    unfold field at htarget
    revert htarget
    cases x.get "target" with
    | str word =>
        intro hfind
        have hword := List.find?_some hfind
        simp only [beq_iff_eq] at hword
        rw [← hword]
        rfl
    | _ => simp [decode]
  refine ⟨h.after, h.before, fun hi hn => (h.item (ht hi)).1 ?_, fun hi he =>
    (h.item (ht hi)).2 ?_⟩
  · rw [hp]
    exact congrArg JsValue.str hn
  · rw [hp]
    exact congrArg JsValue.str he

/-- Patches read from such values are settled. -/
theorem settles_of_values {xs : List JsValue} {ps : List FieldPatch}
    (h : ∀ x ∈ xs, PatchValue wholeItem x) (hd : decodeList xs = some ps) : Settles ps := by
  induction xs generalizing ps with
  | nil =>
      cases hd
      exact settles_nil
  | cons x xs ih =>
      simp only [decodeList] at hd
      split at hd
      · rename_i p rest hp hrest
        cases hd
        exact settles_cons.mpr ⟨settled_of_value (h x List.mem_cons_self) hp,
          ih (fun y hy => h y (List.mem_cons_of_mem _ hy)) hrest⟩
      · cases hd

/-- The patches of an activity after one stage of normalising. -/
def ActivityValue (whole : JsValue → Bool) (y : JsValue) : Prop :=
  ∃ xs, y.get "patches" = .arr xs ∧ ∀ x ∈ xs, PatchValue whole x

/-- The text of an activity, after the first pass. -/
theorem describe_activityValue (a : ActivityRecord) :
    ActivityValue renamedItem (mapPatches normalizePatchDescription (throughText (encode a))) := by
  have hpatches := patches_activityText a
  have hplain : plain (throughText (encode a)) = true := plain_throughText fun h => nomatch h
  have hown : (throughText (encode a)).hasOwn "patches" = true := by
    refine hasOwn_of_get ?_
    rw [hpatches]
    exact fun h => nomatch h
  have hmap : (mapPatches normalizePatchDescription (throughText (encode a))).get "patches" =
      .arr ((a.patches.map fun p => throughText (encode p)).map normalizePatchDescription) := by
    show (updateKey (throughText (encode a)) "patches"
      (mapElems normalizePatchDescription)).get "patches" = _
    rw [get_updateKey_same hown, hpatches]
    rfl
  refine ⟨_, hmap, fun x hx => ?_⟩
  obtain ⟨y, hy, rfl⟩ := List.mem_map.mp hx
  obtain ⟨p, -, rfl⟩ := List.mem_map.mp hy
  exact describe_patchValue (plain_throughText fun h => nomatch h)

/-- The same after the second. -/
theorem order_activityValue {y : JsValue} {maps : OrderMaps} (hm : FiniteMaps maps)
    (h : ActivityValue renamedItem y) :
    FiniteMaps (orderActivity maps y).1 ∧ ActivityValue wholeItem (orderActivity maps y).2 := by
  obtain ⟨xs, hxs, hall⟩ := h
  have hown : y.hasOwn "patches" = true := by
    refine hasOwn_of_get ?_
    rw [hxs]
    exact fun h => nomatch h
  have hrecord : y.isRecord = true := by
    cases y with
    | obj fs => rfl
    | _ => cases hown
  obtain ⟨hmaps, hvalues⟩ := orderAll_finite (f := orderPatch)
    (fun m x hm hx => order_patchValue hm hx) hm hall
  unfold orderActivity
  rw [hrecord, hxs]
  show FiniteMaps (orderKey (orderElems orderPatch) "patches" maps y).1 ∧
    ActivityValue wholeItem (orderKey (orderElems orderPatch) "patches" maps y).2
  obtain ⟨hget, hfirst⟩ := get_orderKey (f := orderElems orderPatch) (v := y) (k := "patches")
    rfl
  rw [hxs] at hget hfirst
  refine ⟨by rw [hfirst]; exact hmaps, (orderAll orderPatch maps xs).2, hget, hvalues⟩

/-- The activities read from such values have settled patches. -/
theorem settles_of_activities {ys : List JsValue} {as : List ActivityRecord}
    (h : ∀ y ∈ ys, ActivityValue wholeItem y) (hd : decodeList ys = some as) :
    ∀ a ∈ as, Settles a.patches := by
  induction ys generalizing as with
  | nil =>
      cases hd
      exact fun _ h => absurd h List.not_mem_nil
  | cons y ys ih =>
      simp only [decodeList] at hd
      split at hd
      · rename_i a rest ha hrest
        cases hd
        intro b hb
        rcases List.mem_cons.mp hb with rfl | hb
        · obtain ⟨xs, hxs, hall⟩ := h y List.mem_cons_self
          simp only [decode, Option.bind_eq_bind, Option.bind_eq_some_iff, Option.pure_def,
            Option.some.injEq] at ha
          obtain ⟨_, -, _, -, _, -, _, -, ps, hps, _, -, _, -, _, -, _, -, rfl⟩ := ha
          unfold field at hps
          rw [hxs] at hps
          exact settles_of_values hall hps
        · exact ih (fun z hz => h z (List.mem_cons_of_mem _ hz)) hrest b hb
      · cases hd

/-- What the stages of normalising make of plain items and of activities that went through text. -/
theorem order_stages {v : JsValue} {xs : List JsValue} {as : List ActivityRecord}
    (hitems : v.get "items" = .arr xs) (hplain : ∀ x ∈ xs, plain x = true)
    (hactivities : v.get "activities" = .arr (as.map fun a => throughText (encode a))) :
    ∃ xs' ys, (orderedState (receivedState (describedState v))).get "items" = .arr xs' ∧
      (∀ x ∈ xs', plain x = true) ∧
      (orderedState (receivedState (describedState v))).get "activities" = .arr ys ∧
      ∀ y ∈ ys, ActivityValue wholeItem y := by
  have hdescribed : (receivedState (describedState v)).get "items" =
      .arr (xs.map normalizeItemDescription) := by
    unfold receivedState describedState
    rw [get_setKey_ne (by decide), get_updateKey_ne (by decide), get_updateKey rfl, hitems]
    rfl
  have hpatches : (receivedState (describedState v)).get "activities" =
      .arr ((as.map fun a => throughText (encode a)).map
        (mapPatches normalizePatchDescription)) := by
    unfold receivedState describedState
    rw [get_setKey_ne (by decide), get_updateKey rfl, get_updateKey_ne (by decide), hactivities]
    rfl
  obtain ⟨hitem, hmaps⟩ := get_orderKey (f := orderElems orderItem) (k := "items")
    (v := receivedState (describedState v)) rfl
  obtain ⟨hfinite, hordered⟩ := orderAll_finite (P := fun x => plain x = true)
    (Q := fun x => plain x = true) (f := orderItem)
    (l := xs.map normalizeItemDescription) (fun m x hm hx => orderItem_finite hm hx)
    (show FiniteMaps ⟨[], []⟩ from ⟨fun _ h => absurd h List.not_mem_nil,
      fun _ h => absurd h List.not_mem_nil⟩) fun x hx => by
      obtain ⟨y, hy, rfl⟩ := List.mem_map.mp hx
      exact plain_normalizeItemDescription (hplain y hy)
  rw [hdescribed] at hitem hmaps
  unfold orderedState
  simp only
  generalize hw : (orderKey (orderElems orderItem) "items" ⟨[], []⟩
    (receivedState (describedState v))).2 = w at hitem
  generalize hm : (orderKey (orderElems orderItem) "items" ⟨[], []⟩
    (receivedState (describedState v))).1 = maps at hmaps
  have hkept : w.get "activities" = .arr ((as.map fun a => throughText (encode a)).map
      (mapPatches normalizePatchDescription)) := by
    rw [← hw, get_orderKey_ne (by decide), hpatches]
  have hstart : FiniteMaps maps := by
    rw [hmaps]
    exact hfinite
  obtain ⟨-, hvalues⟩ := orderAll_finite (f := orderActivity)
    (l := (as.map fun a => throughText (encode a)).map (mapPatches normalizePatchDescription))
    (fun m y hm hy => order_activityValue hm hy) hstart fun y hy => by
      obtain ⟨x, hx, rfl⟩ := List.mem_map.mp hy
      obtain ⟨a, -, rfl⟩ := List.mem_map.mp hx
      exact describe_activityValue a
  obtain ⟨hactivity, -⟩ := get_orderKey (f := orderElems orderActivity) (k := "activities")
    (v := w) rfl
  rw [hkept] at hactivity
  refine ⟨_, _, ?_, hordered, hactivity, hvalues⟩
  rw [get_orderKey_ne (by decide), hitem]
  rfl

/-- **What is read from a stored state is settled.** -/
theorem settled_of_reload {s t : WorkspaceState} (h : reload s = some t) : Settled t := by
  have hkept := reload_kept h
  have hk := keys_encode_state s
  have hplain : plain (throughText (encode s)) = true := plain_throughText fun h => nomatch h
  have hfinite : finite (throughText (encode s)) = true := finite_of_plain hplain
  have hversion : (throughText (encode s)).get "schemaVersion" = encode schemaVersion := by
    rw [get_throughText hk]
    exact throughText_of_plain
      (isFinite_of_safe (show JsNumber.safeInt schemaVersion = true by decide))
  have hitems : (throughText (encode s)).get "items" =
      .arr (s.items.map fun i => throughText (encode i)) := by
    rw [get_throughText hk]
    exact throughText_arr (e := fun i : ItemRecord => encode i) (fun _ h => nomatch h) s.items
  have hactivities : (throughText (encode s)).get "activities" =
      .arr (s.activities.map fun a => throughText (encode a)) := by
    rw [get_throughText hk]
    exact throughText_arr (e := fun a : ActivityRecord => encode a) (fun _ h => nomatch h)
      s.activities
  obtain ⟨xs, ys, hxs, hplains, hys, hvalues⟩ := order_stages hitems (fun x hx => by
    obtain ⟨i, -, rfl⟩ := List.mem_map.mp hx
    exact plain_throughText fun h => nomatch h) hactivities
  unfold reload at h
  rw [normalizeWorkspaceState_eq hversion (by rw [hitems]; rfl)] at h
  simp only [decode, Option.bind_eq_bind, Option.bind_eq_some_iff, Option.pure_def,
    Option.some.injEq] at h
  obtain ⟨as, has, es, -, rs, -, is, his, ls, hls, ps, hps, w, hw, rfl⟩ := h
  have hstays : ∀ {α : Type} [Codec α] {k : String} {a : α}, k ∉ normalizedKeys →
      field (orderedState (receivedState (describedState (throughText (encode s))))) k = some a →
      field (throughText (encode s)) k = some a := by
    intro α _ k a hk ha
    unfold field at ha ⊢
    rwa [get_stages hk] at ha
  refine ⟨⟨?_, ?_, ?_, ?_⟩, ?_, ?_⟩
  · refine plain_encode_list.mp (plain_of_decode his ?_)
    rw [hxs]
    exact finite_of_plain (plainList_iff.mpr hplains)
  · exact plain_encode_list.mp (plain_of_field (hstays (by decide) hls) hfinite)
  · exact plain_encode_list.mp (plain_of_field (hstays (by decide) hps) hfinite)
  · exact plain_of_field (hstays (by decide) hw) hfinite
  · refine settles_of_activities hvalues (?_ : decodeList ys = some as)
    unfold field at has
    rw [hys] at has
    exact has
  · rw [hkept.receipts]
    exact nodup_uniq _

end Stowplan
