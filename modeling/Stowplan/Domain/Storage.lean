/-
  File:      Stowplan/Domain/Storage.lean
  Subject:   A STATE AS TEXT, AND WHAT IT READS BACK AS.

  A snapshot is stored and sent as JSON, and normalised when it is read. The reading keeps the
  workspace record, the audit and the identifiers of the activities; receipts lose their
  repetitions.

  * `throughText`, key by key;
  * `reload`: the state a stored snapshot reads back as; `normalized`: a state in memory,
    normalised;
  * `reload_kept`, `normalized_kept`: what both keep.
-/
import Stowplan.Domain.Revision

namespace Stowplan

open JsValue Keyed

/-! ## 1. Text, key by key -/

/-- The text of an object has no new keys. -/
theorem keys_throughTextFields (fs : List (String × JsValue)) :
    ((throughTextFields fs).map (·.1)).Sublist (fs.map (·.1)) := by
  induction fs with
  | nil => exact .slnil
  | cons entry rest ih =>
      obtain ⟨k, v⟩ := entry
      cases v <;> first
        | exact ih.cons _
        | exact ih.cons_cons _

/-- A field comes back as its value does. -/
theorem lookup_throughTextFields {k : String} : ∀ {fs : List (String × JsValue)},
    (fs.map (·.1)).Nodup → lookup k (throughTextFields fs) = throughText (lookup k fs)
  | [], _ => rfl
  | (m, v) :: rest, h => by
      simp only [List.map_cons, List.nodup_cons] at h
      have ih := lookup_throughTextFields (k := k) h.2
      by_cases hm : m = k
      · subst hm
        cases v with
        | undefined =>
            -- the entry is gone, and no other has its key
            have hout : m ∉ (throughTextFields rest).map (·.1) :=
              fun hin => h.1 ((keys_throughTextFields rest).subset hin)
            rw [lookup_cons_same]
            exact lookup_of_not_mem hout
        | _ =>
            rw [lookup_cons_same]
            exact lookup_cons_same _ _ _
      · cases v with
        | undefined =>
            rw [lookup_cons_ne hm]
            exact ih
        | _ =>
            rw [lookup_cons_ne hm]
            exact (lookup_cons_ne hm _ _).trans ih

/-- What an object shows under a key after its way through text. -/
theorem get_throughText {v : JsValue} (h : v.keys.Nodup) (k : String) :
    (throughText v).get k = throughText (v.get k) := by
  cases v with
  | obj fs => exact lookup_throughTextFields h
  | num x =>
      show (if x.isFinite = true then JsValue.num x else .null).get k = _
      split <;> rfl
  | _ => rfl

/-- A list comes back element by element. -/
theorem throughText_arr {α : Type} {e : α → JsValue} (h : ∀ a, e a ≠ .undefined) (l : List α) :
    throughText (.arr (l.map e)) = .arr (l.map fun a => throughText (e a)) := by
  show JsValue.arr (throughTextList _) = _
  congr 1
  induction l with
  | nil => rfl
  | cons a l ih =>
      have ha := h a
      rw [List.map_cons, List.map_cons, ← ih]
      revert ha
      cases e a <;> simp [throughTextList]

/-! ## 2. Normalising, key by key -/

section Keys

/-- Setting a key leaves the others. -/
theorem get_setKey_ne {v w : JsValue} {key k : String} (h : key ≠ k) :
    (v.setKey key w).get k = v.get k := by
  cases v with
  | obj fs =>
      show lookup k (setEntry key w fs) = lookup k fs
      rw [lookup_setEntry, if_neg h]
  | _ => rfl

/-- A key that is set reads as its value. -/
theorem get_setKey_same {v w : JsValue} {key : String} (h : v.isRecord = true) :
    (v.setKey key w).get key = w := by
  cases v with
  | obj fs =>
      show lookup key (setEntry key w fs) = w
      rw [lookup_setEntry, if_pos rfl]
  | _ => cases h

theorem isRecord_setKey (v w : JsValue) (key : String) :
    (v.setKey key w).isRecord = v.isRecord := by
  cases v <;> rfl

/-- The keys of an object with one set. -/
theorem mem_keys_setEntry {k key : String} {w : JsValue} {fs : List (String × JsValue)} :
    k ∈ (setEntry key w fs).map (·.1) ↔ k = key ∨ k ∈ fs.map (·.1) := by
  induction fs with
  | nil => simp [setEntry]
  | cons p fs ih =>
      obtain ⟨m, x⟩ := p
      by_cases hm : m = key
      · subst hm
        simp [setEntry]
      · simp only [setEntry, if_neg hm, List.map_cons, List.mem_cons, ih]
        tauto

theorem hasOwn_setKey {v w : JsValue} {key k : String} (h : v.hasOwn k = true) :
    (v.setKey key w).hasOwn k = true := by
  cases v with
  | obj fs =>
      have hk : k ∈ fs.map (·.1) := List.contains_iff_mem.mp h
      exact List.contains_iff_mem.mpr (mem_keys_setEntry.mpr (.inr hk))
  | _ => exact h

theorem get_updateKey_ne {v : JsValue} {f : JsValue → JsValue} {key k : String} (h : key ≠ k) :
    (updateKey v key f).get k = v.get k := by
  unfold updateKey
  split
  · exact get_setKey_ne h
  · rfl

/-- A key that is updated reads as its new value. -/
theorem get_updateKey_same {v : JsValue} {f : JsValue → JsValue} {key : String}
    (h : v.hasOwn key = true) : (updateKey v key f).get key = f (v.get key) := by
  have hr : v.isRecord = true := by
    cases v with
    | obj fs => rfl
    | _ => cases h
  unfold updateKey
  rw [if_pos h, get_setKey_same hr]

theorem get_orderKey_ne {f : OrderMaps → JsValue → OrderMaps × JsValue} {maps : OrderMaps}
    {v : JsValue} {key k : String} (h : key ≠ k) : (orderKey f key maps v).2.get k = v.get k := by
  unfold orderKey
  split
  · exact get_setKey_ne h
  · rfl

/-- So does one that a pass with maps updates. -/
theorem get_orderKey_same {f : OrderMaps → JsValue → OrderMaps × JsValue} {maps : OrderMaps}
    {v : JsValue} {key : String} (h : v.hasOwn key = true) :
    (orderKey f key maps v).2.get key = (f maps (v.get key)).2 := by
  have hr : v.isRecord = true := by
    cases v with
    | obj fs => rfl
    | _ => cases h
  unfold orderKey
  rw [if_pos h]
  exact get_setKey_same hr

theorem hasOwn_orderKey {f : OrderMaps → JsValue → OrderMaps × JsValue} {maps : OrderMaps}
    {v : JsValue} {key k : String} (h : v.hasOwn k = true) :
    (orderKey f key maps v).2.hasOwn k = true := by
  unfold orderKey
  split
  · exact hasOwn_setKey h
  · exact h

theorem hasOwn_updateKey {v : JsValue} {f : JsValue → JsValue} {key k : String}
    (h : v.hasOwn k = true) : (updateKey v key f).hasOwn k = true := by
  unfold updateKey
  split
  · exact hasOwn_setKey h
  · exact h

/-- Two lists of activities show the same besides patches, one by one. -/
def SameActivities : List JsValue → List JsValue → Prop :=
  List.Forall₂ fun x y => ∀ k, k ≠ "patches" → y.get k = x.get k

/-- A change of the patches keeps which activities there are. -/
theorem sameActivities_map {f : JsValue → JsValue}
    (hf : ∀ x, ∀ k, k ≠ "patches" → (f x).get k = x.get k) (xs : List JsValue) :
    SameActivities xs (xs.map f) :=
  List.forall₂_map_right_iff.mpr (List.forall₂_same.mpr fun x _ => hf x)

/-- So does a pass with maps. -/
theorem sameActivities_orderAll {f : OrderMaps → JsValue → OrderMaps × JsValue}
    (hf : ∀ maps x, ∀ k, k ≠ "patches" → (f maps x).2.get k = x.get k) (maps : OrderMaps)
    (xs : List JsValue) : SameActivities xs (orderAll f maps xs).2 := by
  induction xs generalizing maps with
  | nil => exact .nil
  | cons x xs ih => exact .cons (hf maps x) (ih _)

theorem SameActivities.trans {xs ys zs : List JsValue} (h : SameActivities xs ys)
    (h' : SameActivities ys zs) : SameActivities xs zs := by
  induction h generalizing zs with
  | nil =>
      cases h'
      exact .nil
  | cons hxy _ ih =>
      cases h' with
      | cons hyz hrest => exact .cons (fun k hk => (hyz k hk).trans (hxy k hk)) (ih hrest)

theorem get_mapPatches {f : JsValue → JsValue} {x : JsValue} {k : String} (h : k ≠ "patches") :
    (mapPatches f x).get k = x.get k := by
  unfold mapPatches
  split
  · exact get_updateKey_ne (Ne.symm h)
  · rfl

theorem get_orderActivity {maps : OrderMaps} {x : JsValue} {k : String} (h : k ≠ "patches") :
    (orderActivity maps x).2.get k = x.get k := by
  unfold orderActivity
  split
  · rfl
  · exact get_orderKey_ne (Ne.symm h)

end Keys

/-! ## 3. The stages of normalising -/

section Stages

/-- Old names replaced. -/
def describedState (v : JsValue) : JsValue :=
  updateKey (updateKey v "items" (mapElems normalizeItemDescription)) "activities"
    (mapElems (mapPatches normalizePatchDescription))

/-- Receipts without repetitions. -/
def receivedState (v : JsValue) : JsValue :=
  v.setKey "commandReceipts"
    (match v.get "commandReceipts" with
    | .arr xs => .arr (dedupe [] xs)
    | _ => .arr [])

/-- Orders given where they are missing. -/
def orderedState (v : JsValue) : JsValue :=
  let items := orderKey (orderElems orderItem) "items" ⟨[], []⟩ v
  (orderKey (orderElems orderActivity) "activities" items.1 items.2).2

variable {v : JsValue} {k : String}

/-- The stages a value of the current version goes through. -/
theorem normalizeWorkspaceState_eq (hv : v.get "schemaVersion" = encode schemaVersion)
    (hi : (v.get "items").isArray = true) :
    normalizeWorkspaceState v = orderedState (receivedState (describedState v)) := by
  have hne : encode schemaVersion ≠ encode legacySchemaVersion := by decide +kernel
  have hrec : v.isRecord = true := by
    cases v with
    | obj fs => rfl
    | _ => cases hi
  have hitems : v.hasOwn "items" = true := by
    cases v with
    | obj fs =>
        by_contra hout
        rw [get_obj, lookup_of_not_mem (fun h => hout (List.contains_iff_mem.mpr h))] at hi
        cases hi
    | _ => cases hrec
  have harray : ((receivedState (describedState v)).get "items").isArray = true := by
    unfold receivedState describedState
    rw [get_setKey_ne (by decide), get_updateKey_ne (by decide), get_updateKey_same hitems]
    revert hi
    cases v.get "items" <;> simp [isArray, mapElems]
  unfold normalizeWorkspaceState
  simp only [hv, decide_true, Bool.or_true, if_true, if_neg hne]
  have hfalse : (!((receivedState (describedState v)).get "items").isArray) = true → False := by
    rw [harray]
    exact fun h => absurd h (by decide)
  exact if_neg hfalse

/-- The keys that the stages may change. -/
def normalizedKeys : List String := ["activities", "commandReceipts", "items"]

/-- Normalising leaves the other keys as they are. -/
theorem get_stages (h : k ∉ normalizedKeys) :
    (orderedState (receivedState (describedState v))).get k = v.get k := by
  simp only [normalizedKeys, List.mem_cons, List.not_mem_nil, or_false, not_or] at h
  obtain ⟨h1, h2, h3⟩ := h
  unfold orderedState receivedState describedState
  rw [get_orderKey_ne (Ne.symm h1), get_orderKey_ne (Ne.symm h3), get_setKey_ne (Ne.symm h2),
    get_updateKey_ne (Ne.symm h1), get_updateKey_ne (Ne.symm h3)]

/-- The receipts after all passes: each once. -/
theorem receipts_stages (hr : v.isRecord = true) {xs : List JsValue}
    (h : v.get "commandReceipts" = .arr xs) :
    (orderedState (receivedState (describedState v))).get "commandReceipts" =
      .arr (dedupe [] xs) := by
  have hrec : (describedState v).isRecord = true := by
    unfold describedState updateKey
    split <;> split <;> simp only [isRecord_setKey, hr]
  have hget : (describedState v).get "commandReceipts" = .arr xs := by
    unfold describedState
    rw [get_updateKey_ne (by decide), get_updateKey_ne (by decide), h]
  unfold orderedState receivedState
  rw [get_orderKey_ne (by decide), get_orderKey_ne (by decide), get_setKey_same hrec, hget]

/-- The activities after all passes are those that were there. -/
theorem activities_stages {xs : List JsValue} (ho : v.hasOwn "activities" = true)
    (h : v.get "activities" = .arr xs) :
    ∃ ys, (orderedState (receivedState (describedState v))).get "activities" = .arr ys ∧
      SameActivities xs ys := by
  have ho₁ : (describedState v).hasOwn "activities" = true :=
    hasOwn_updateKey (hasOwn_updateKey ho)
  have h₁ : (describedState v).get "activities" =
      .arr (xs.map (mapPatches normalizePatchDescription)) := by
    unfold describedState
    rw [get_updateKey_same (hasOwn_updateKey ho), get_updateKey_ne (by decide), h]
    rfl
  have ho₂ : (orderKey (orderElems orderItem) "items" ⟨[], []⟩
      (receivedState (describedState v))).2.hasOwn "activities" = true :=
    hasOwn_orderKey (hasOwn_setKey ho₁)
  have h₂ : (orderKey (orderElems orderItem) "items" ⟨[], []⟩
      (receivedState (describedState v))).2.get "activities" =
        .arr (xs.map (mapPatches normalizePatchDescription)) := by
    rw [get_orderKey_ne (by decide)]
    unfold receivedState
    rw [get_setKey_ne (by decide), h₁]
  unfold orderedState
  simp only
  rw [get_orderKey_same ho₂, h₂]
  exact ⟨_, rfl, (sameActivities_map (fun x k hk => get_mapPatches hk) xs).trans
    (sameActivities_orderAll (fun maps x k hk => get_orderActivity hk) _ _)⟩

end Stages

/-! ## 4. What reads back as it was -/

/-- A value that reads back from text reads back as it was. -/
class Textual (α : Type) [Codec α] : Prop where
  encode_ne : ∀ a : α, encode a ≠ .undefined
  back : ∀ a b : α, decode (throughText (encode a)) = some b → b = a

/-- A value that its text leaves alone comes back as itself. -/
theorem back_of_same {α : Type} [Codec α] {a b : α} (h : throughText (encode a) = encode a)
    (hb : decode (throughText (encode a)) = some b) : b = a := by
  rw [h, Codec.decode_encode] at hb
  exact (Option.some.inj hb).symm

instance : Textual String where
  encode_ne _ h := nomatch h
  back _ _ h := back_of_same rfl h

instance : Textual AuditType where
  encode_ne _ h := nomatch h
  back _ _ h := back_of_same rfl h

instance : Textual Int where
  encode_ne _ h := nomatch h
  back n m h := by
    by_cases hf : (JsNumber.ofInt n).isFinite = true
    · refine back_of_same ?_ h
      show (if (JsNumber.ofInt n).isFinite = true then JsValue.num _ else .null) = _
      rw [if_pos hf]
      rfl
    · have hnull : throughText (encode n) = .null := by
        show (if (JsNumber.ofInt n).isFinite = true then JsValue.num _ else .null) = _
        rw [if_neg hf]
      rw [hnull] at h
      cases h

/-- So does a list. -/
theorem decodeList_back {α : Type} [Codec α] [Textual α] {l m : List α}
    (h : decodeList (l.map fun a => throughText (encode a)) = some m) : m = l := by
  induction l generalizing m with
  | nil =>
      cases h
      rfl
  | cons a l ih =>
      simp only [List.map_cons, decodeList] at h
      split at h
      · rename_i b bs hb hbs
        cases h
        rw [Textual.back a b hb, ih hbs]
      · cases h

instance {α : Type} [Codec α] [Textual α] : Textual (List α) where
  encode_ne _ h := nomatch h
  back l m h := by
    have he : throughText (encode l) = .arr (l.map fun a => throughText (encode a)) :=
      throughText_arr (fun a => Textual.encode_ne a) l
    rw [he] at h
    exact decodeList_back h

/-- A field of an object that went through text. -/
theorem field_back {α : Type} [Codec α] [Textual α] {v : JsValue} {key : String} {a b : α}
    (hv : v.keys.Nodup) (hk : v.get key = encode a) (h : field (throughText v) key = some b) :
    b = a := by
  unfold field at h
  rw [get_throughText hv, hk] at h
  exact Textual.back a b h

instance : Textual AuditEvent where
  encode_ne _ h := nomatch h
  back a b h := by
    have hk : (encode a).keys.Nodup := (by decide : ["actorId", "id", "label",
      "targetActivityIds", "timestamp", "type"].Nodup)
    simp only [decode, Option.bind_eq_bind, Option.bind_eq_some_iff, Option.pure_def,
      Option.some.injEq] at h
    obtain ⟨_, h1, _, h2, _, h3, _, h4, _, h5, _, h6, rfl⟩ := h
    obtain rfl := field_back (a := a.actorId) hk rfl h1
    obtain rfl := field_back (a := a.id) hk rfl h2
    obtain rfl := field_back (a := a.label) hk rfl h3
    obtain rfl := field_back (a := a.targetActivityIds) hk rfl h4
    obtain rfl := field_back (a := a.timestamp) hk rfl h5
    obtain rfl := field_back (a := a.type) hk rfl h6
    rfl

instance : Textual Workspace where
  encode_ne _ h := nomatch h
  back w v h := by
    have hk : (encode w).keys.Nodup := (by decide : ["createdAt", "id", "name", "revision",
      "updatedAt"].Nodup)
    simp only [decode, Option.bind_eq_bind, Option.bind_eq_some_iff, Option.pure_def,
      Option.some.injEq] at h
    obtain ⟨_, h1, _, h2, _, h3, _, h4, _, h5, rfl⟩ := h
    obtain rfl := field_back (a := w.createdAt) hk rfl h1
    obtain rfl := field_back (a := w.id) hk rfl h2
    obtain rfl := field_back (a := w.name) hk rfl h3
    obtain rfl := field_back (a := w.revision) hk rfl h4
    obtain rfl := field_back (a := w.updatedAt) hk rfl h5
    rfl

/-! ## 5. Reading a snapshot back -/

section Reading

/-- `normalizeWorkspaceState(JSON.parse(text))` of the text of a state. -/
def reload (s : WorkspaceState) : Option WorkspaceState :=
  decode (normalizeWorkspaceState (throughText (encode s)))

/-- `normalizeWorkspaceState(structuredClone(state))`. -/
def normalized (s : WorkspaceState) : Option WorkspaceState :=
  decode (normalizeWorkspaceState (encode s))

/-- The identifiers an activity goes by. -/
def activityIds (s : WorkspaceState) : List (String × String) :=
  s.activities.map fun a => (a.id, a.commandId)

/-- What reading a snapshot keeps of it. -/
structure Kept (s t : WorkspaceState) : Prop where
  workspace : t.workspace = s.workspace
  audit : t.audit = s.audit
  receipts : t.commandReceipts = uniq s.commandReceipts
  activities : activityIds t = activityIds s

/-- Texts without repetition, each where it comes first. -/
theorem dedupe_strings (seen ids : List String) :
    dedupe (seen.map .str) (ids.map .str) = (Forest.fresh id seen ids).map .str := by
  induction ids generalizing seen with
  | nil => rfl
  | cons x ids ih =>
      have hin : ((seen.map JsValue.str).any (strictEqual (.str x))) = true ↔ x ∈ seen := by
        simp [strictEqual]
      rw [List.map_cons, dedupe]
      by_cases hx : x ∈ seen
      · rw [if_pos (hin.mpr hx), ih]
        simp [Forest.fresh, hx]
      · rw [if_neg (fun h => hx (hin.mp h)), ← List.map_cons, ih]
        simp [Forest.fresh, hx]

/-- The same activities have the same ids. -/
theorem activityIds_of_same {xs ys : List JsValue} {as bs : List ActivityRecord}
    (h : SameActivities xs ys)
    (hx : List.Forall₂ (fun x a => x.get "id" = .str a.id ∧ x.get "commandId" = .str a.commandId)
      xs as)
    (hy : decodeList ys = some bs) :
    bs.map (fun b => (b.id, b.commandId)) = as.map fun a => (a.id, a.commandId) := by
  induction h generalizing as bs with
  | nil =>
      cases hx
      cases hy
      rfl
  | @cons x y xs ys hxy _ ih =>
      cases hx with
      | @cons _ a _ as hxa hrest =>
          simp only [decodeList] at hy
          split at hy
          · rename_i b bs hb hbs
            cases hy
            simp only [decode, Option.bind_eq_bind, Option.bind_eq_some_iff, Option.pure_def,
              Option.some.injEq] at hb
            obtain ⟨_, -, commandId, hc, i, hi, _, -, _, -, _, -, _, -, _, -, _, -, rfl⟩ := hb
            unfold field at hc hi
            rw [hxy "commandId" (by decide), hxa.2] at hc
            rw [hxy "id" (by decide), hxa.1] at hi
            cases hc
            cases hi
            rw [List.map_cons, List.map_cons, ih hrest hbs]
          · cases hy

/-- What the stages of normalising keep of a value that shows a state. -/
theorem kept_of_stages {v : JsValue} {s t : WorkspaceState} (hr : v.isRecord = true)
    (ho : v.hasOwn "activities" = true)
    (hreceipts : v.get "commandReceipts" = .arr (s.commandReceipts.map .str))
    {xs : List JsValue} (hxs : v.get "activities" = .arr xs)
    (hx : List.Forall₂ (fun x a => x.get "id" = .str a.id ∧ x.get "commandId" = .str a.commandId)
      xs s.activities)
    (hworkspace : ∀ w : Workspace, field v "workspace" = some w → w = s.workspace)
    (haudit : ∀ es : List AuditEvent, field v "audit" = some es → es = s.audit)
    (h : decode (orderedState (receivedState (describedState v))) = some t) : Kept s t := by
  simp only [decode, Option.bind_eq_bind, Option.bind_eq_some_iff, Option.pure_def,
    Option.some.injEq] at h
  obtain ⟨as, has, es, hes, rs, hrs, _, -, _, -, _, -, w, hw, rfl⟩ := h
  obtain ⟨ys, hys, hsame⟩ := activities_stages ho hxs
  refine ⟨hworkspace w ?_, haudit es ?_, ?_, ?_⟩
  · rw [field, ← get_stages (by decide)]
    exact hw
  · rw [field, ← get_stages (by decide)]
    exact hes
  · have hd : (Codec.decode (.arr (dedupe [] (s.commandReceipts.map .str))) :
        Option (List String)) = some rs := by
      rw [← receipts_stages hr hreceipts]
      exact hrs
    have hu := dedupe_strings [] s.commandReceipts
    rw [List.map_nil] at hu
    rw [hu] at hd
    exact (Option.some.inj ((Codec.decode_encode (uniq s.commandReceipts)).symm.trans hd)).symm
  · have hd : decodeList ys = some as := by
      unfold field at has
      rw [hys] at has
      exact has
    exact activityIds_of_same hsame hx hd

theorem keys_encode_state (s : WorkspaceState) : (encode s).keys.Nodup :=
  (by decide : ["activities", "audit", "commandReceipts", "items", "locations", "plans",
    "schemaVersion", "workspace"].Nodup)

/-- **Reading a state in memory keeps its history.** -/
theorem normalized_kept {s t : WorkspaceState} (h : normalized s = some t) : Kept s t := by
  unfold normalized at h
  rw [normalizeWorkspaceState_eq rfl rfl] at h
  refine kept_of_stages (v := encode s) rfl rfl rfl rfl ?_ ?_ ?_ h
  · exact List.forall₂_map_left_iff.mpr (List.forall₂_same.mpr fun _ _ => ⟨rfl, rfl⟩)
  · intro w hw
    exact (Option.some.inj ((Codec.decode_encode s.workspace).symm.trans hw)).symm
  · intro es hes
    exact (Option.some.inj ((Codec.decode_encode s.audit).symm.trans hes)).symm

theorem throughText_strings (ids : List String) :
    throughText (encode ids) = .arr (ids.map .str) :=
  throughText_arr (e := JsValue.str) (fun _ h => nomatch h) ids

/-- **Reading a stored state keeps its history.** -/
theorem reload_kept {s t : WorkspaceState} (h : reload s = some t) : Kept s t := by
  have hk := keys_encode_state s
  have hactivities : ∀ a : ActivityRecord, encode a ≠ .undefined := fun _ h => nomatch h
  have hversion : (throughText (encode s)).get "schemaVersion" = encode schemaVersion := by
    rw [get_throughText hk]
    have hf : (JsNumber.ofInt schemaVersion).isFinite = true := by decide +kernel
    show (if (JsNumber.ofInt schemaVersion).isFinite = true then JsValue.num _ else .null) = _
    rw [if_pos hf]
    rfl
  have hitems : ((throughText (encode s)).get "items").isArray = true := by
    rw [get_throughText hk]
    rfl
  have hxs : (throughText (encode s)).get "activities" =
      .arr (s.activities.map fun a => throughText (encode a)) := by
    rw [get_throughText hk]
    exact throughText_arr hactivities s.activities
  unfold reload at h
  rw [normalizeWorkspaceState_eq hversion hitems] at h
  refine kept_of_stages rfl ?_ ?_ hxs ?_ ?_ ?_ h
  · cases ho : (throughText (encode s)).hasOwn "activities" with
    | true => rfl
    | false =>
        have hout : "activities" ∉ (throughText (encode s)).keys := by
          intro hin
          rw [hasOwn, List.contains_iff_mem.mpr hin] at ho
          cases ho
        have hobj : ∃ fs, throughText (encode s) = .obj fs := ⟨_, rfl⟩
        obtain ⟨fs, hfs⟩ := hobj
        rw [hfs, get_obj, lookup_of_not_mem (by rwa [hfs] at hout)] at hxs
        cases hxs
  · rw [get_throughText hk]
    exact throughText_strings s.commandReceipts
  · refine List.forall₂_map_left_iff.mpr (List.forall₂_same.mpr fun a _ => ?_)
    have hka : (encode a).keys.Nodup := (by decide : ["actorId", "commandId", "id", "label",
      "patches", "status", "subjectIds", "timestamp", "undoneAt"].Nodup)
    rw [get_throughText hka, get_throughText hka]
    exact ⟨rfl, rfl⟩
  · exact fun w hw => field_back (a := s.workspace) hk rfl hw
  · exact fun es hes => field_back (a := s.audit) hk rfl hes

end Reading

end Stowplan
