/-
  File:      Stowplan/Domain/Normalize.lean
  Subject:   NORMALISING A TYPED STATE.

  What `normalizeWorkspaceState` makes of the value of a state is again the value of a state:
  items without an order get one, receipts lose their repetitions, and retained patches lose
  old names and get the orders they lack. So a state in memory always normalises.

  * `normalizeState`: the typed normalisation;
  * `normalizeWorkspaceState_encode`: the square commutes;
  * `normalized_eq`: normalising a state in memory never fails.
-/
import Stowplan.Domain.Storage

namespace Stowplan

open JsValue Keyed

/-! ## 1. The typed functions -/

/-- `normalizePatchDescription`. -/
def describePatch (p : FieldPatch) : FieldPatch :=
  if p.target ≠ .item then p
  else if p.path = "notes" then { p with path := "description" }
  else if p.path = "" then { p with
    after := normalizeItemDescription p.after
    before := normalizeItemDescription p.before }
  else p

/-- The item with an order. -/
def orderedItem (maps : OrderMaps) (item : ItemRecord) : ItemRecord :=
  if item.order.isFinite then item
  else { item with order := (orderOf item.locationId maps.nextOrder).getD 0 }

/-- The maps after an item. -/
def countItem (maps : OrderMaps) (item : ItemRecord) : OrderMaps :=
  if item.order.isFinite then (maps.assign item.id item.order).count item.locationId item.order
  else maps

/-- `orderItem`. -/
def orderTyped (maps : OrderMaps) (item : ItemRecord) : OrderMaps × ItemRecord :=
  (countItem maps (orderedItem maps item), orderedItem maps item)

/-- `orderPatch`. -/
def orderPatchTyped (maps : OrderMaps) (p : FieldPatch) : OrderMaps × FieldPatch :=
  if p.target ≠ .item || p.path ≠ "" then (maps, p)
  else
    let before := orderRecord maps p.before
    let after := orderRecord before.1 p.after
    (after.1, { p with
      after := after.2
      before := before.2 })

/-- A list changed one by one with the maps carried along. -/
def orderEach {α : Type} (f : OrderMaps → α → OrderMaps × α) :
    OrderMaps → List α → OrderMaps × List α
  | maps, [] => (maps, [])
  | maps, a :: rest =>
    let head := f maps a
    let tail := orderEach f head.1 rest
    (tail.1, head.2 :: tail.2)

/-- `orderActivity`. -/
def orderActivityTyped (maps : OrderMaps) (a : ActivityRecord) : OrderMaps × ActivityRecord :=
  let patches := orderEach orderPatchTyped maps a.patches
  (patches.1, { a with patches := patches.2 })

/-- `normalizeWorkspaceState` of a typed state. -/
def normalizeState (s : WorkspaceState) : WorkspaceState :=
  let items := orderEach orderTyped ⟨[], []⟩ s.items
  let described := s.activities.map fun a => { a with patches := a.patches.map describePatch }
  { s with
    activities := (orderEach orderActivityTyped items.1 described).2
    commandReceipts := uniq s.commandReceipts
    items := items.2 }

/-! ## 2. The square -/

/-- A stored item has no old name. -/
theorem normalizeItemDescription_item (i : ItemRecord) :
    normalizeItemDescription (encode i) = encode i := rfl

theorem mapElems_encode {α : Type} [Codec α] {f : JsValue → JsValue} {g : α → α}
    (h : ∀ a, f (encode a) = encode (g a)) (l : List α) :
    mapElems f (encode l) = encode (l.map g) := by
  show JsValue.arr ((l.map encode).map f) = .arr ((l.map g).map encode)
  rw [List.map_map, List.map_map]
  exact congrArg JsValue.arr (List.map_congr_left fun a _ => h a)

/-- Normalising the JSON of a patch is normalising the patch. -/
theorem normalizePatchDescription_encode (p : FieldPatch) :
    normalizePatchDescription (encode p) = encode (describePatch p) := by
  have hrecord : (encode p).isRecord = true := rfl
  have htarget : (encode p).get "target" = encode p.target := rfl
  have hpath : (encode p).get "path" = .str p.path := rfl
  have hitem : (encode p.target = JsValue.str "item") = (p.target = .item) := by
    cases p.target <;> simp [encode, PatchTarget.word]
  unfold normalizePatchDescription describePatch
  simp only [hrecord, htarget, hpath, hitem, Bool.not_true, Bool.false_or, decide_eq_true_eq,
    ne_eq, JsValue.str.injEq]
  split_ifs <;> rfl

theorem mapPatches_encode (a : ActivityRecord) :
    mapPatches normalizePatchDescription (encode a) =
      encode { a with patches := a.patches.map describePatch } := by
  have h := mapElems_encode normalizePatchDescription_encode a.patches
  have hset : mapPatches normalizePatchDescription (encode a) =
      (encode a).setKey "patches" (mapElems normalizePatchDescription (encode a.patches)) := rfl
  rw [hset, h]
  rfl

/-- A list changed with the maps carried along, through its values. -/
theorem orderAll_encode {α : Type} [Codec α] {f : OrderMaps → JsValue → OrderMaps × JsValue}
    {g : OrderMaps → α → OrderMaps × α}
    (h : ∀ maps a, f maps (encode a) = ((g maps a).1, encode (g maps a).2)) (maps : OrderMaps)
    (l : List α) :
    orderAll f maps (l.map encode) =
      ((orderEach g maps l).1, (orderEach g maps l).2.map encode) := by
  induction l generalizing maps with
  | nil => rfl
  | cons a l ih =>
      simp only [List.map_cons, orderAll, orderEach, h, ih]

theorem orderElems_encode {α : Type} [Codec α] {f : OrderMaps → JsValue → OrderMaps × JsValue}
    {g : OrderMaps → α → OrderMaps × α}
    (h : ∀ maps a, f maps (encode a) = ((g maps a).1, encode (g maps a).2)) (maps : OrderMaps)
    (l : List α) :
    orderElems f maps (encode l) = ((orderEach g maps l).1, encode (orderEach g maps l).2) := by
  show ((orderAll f maps (l.map encode)).1, JsValue.arr (orderAll f maps (l.map encode)).2) = _
  rw [orderAll_encode h]
  rfl

/-- The second half of `orderItem`. -/
theorem countItem_encode (maps : OrderMaps) (i : ItemRecord) :
    (if ((encode i).get "order").isFiniteNum then
      ((if ((encode i).get "id").isString then
        maps.assign (valueId (encode i)) (numberOf ((encode i).get "order")) else maps).count
          i.locationId (numberOf ((encode i).get "order")), encode i)
      else (maps, encode i)) = (countItem maps i, encode i) := by
  show (if i.order.isFinite then _ else _) = _
  unfold countItem
  by_cases hf : i.order.isFinite = true
  · rw [if_pos hf, if_pos hf]
    rfl
  · rw [if_neg hf, if_neg hf]

theorem orderItem_encode (maps : OrderMaps) (i : ItemRecord) :
    orderItem maps (encode i) = ((orderTyped maps i).1, encode (orderTyped maps i).2) := by
  have hordered : (if ((encode i).get "order").isFiniteNum then encode i
      else (encode i).setKey "order"
        (.num ((orderOf i.locationId maps.nextOrder).getD 0))) = encode (orderedItem maps i) := by
    show (if i.order.isFinite then _ else _) = _
    unfold orderedItem
    by_cases hf : i.order.isFinite = true
    · rw [if_pos hf, if_pos hf]
    · rw [if_neg hf, if_neg hf]
      rfl
  have hloc : (orderedItem maps i).locationId = i.locationId := by
    unfold orderedItem
    split <;> rfl
  have hcount := countItem_encode maps (orderedItem maps i)
  rw [hloc] at hcount
  have hstart : orderItem maps (encode i) =
      (let item := if ((encode i).get "order").isFiniteNum then encode i
        else (encode i).setKey "order" (.num ((orderOf i.locationId maps.nextOrder).getD 0))
      if (item.get "order").isFiniteNum then
        ((if (item.get "id").isString then
          maps.assign (valueId item) (numberOf (item.get "order")) else maps).count
            i.locationId (numberOf (item.get "order")), item)
      else (maps, item)) := rfl
  rw [hstart, hordered]
  exact hcount

/-- So is giving it orders. -/
theorem orderPatch_encode (maps : OrderMaps) (p : FieldPatch) :
    orderPatch maps (encode p) =
      ((orderPatchTyped maps p).1, encode (orderPatchTyped maps p).2) := by
  have hrecord : (encode p).isRecord = true := rfl
  have htarget : (encode p).get "target" = encode p.target := rfl
  have hpath : (encode p).get "path" = .str p.path := rfl
  have hitem : (encode p.target = JsValue.str "item") = (p.target = .item) := by
    cases p.target <;> simp [encode, PatchTarget.word]
  unfold orderPatch orderPatchTyped
  simp only [hrecord, htarget, hpath, hitem, Bool.not_true, Bool.false_or, ne_eq,
    JsValue.str.injEq, Bool.or_eq_true, decide_not, Bool.not_eq_true',
    decide_eq_false_iff_not]
  split_ifs with h
  · rfl
  · rfl

/-- So for an activity. -/
theorem orderActivity_encode (maps : OrderMaps) (a : ActivityRecord) :
    orderActivity maps (encode a) =
      ((orderActivityTyped maps a).1, encode (orderActivityTyped maps a).2) := by
  have h := orderElems_encode orderPatch_encode maps a.patches
  have hstart : orderActivity maps (encode a) =
      ((orderElems orderPatch maps (encode a.patches)).1,
        (encode a).setKey "patches" (orderElems orderPatch maps (encode a.patches)).2) := rfl
  rw [hstart, h]
  rfl

/-- The first pass over a state. -/
theorem describedState_encode (s : WorkspaceState) :
    describedState (encode s) = encode ({ s with
      activities := s.activities.map fun a => { a with patches := a.patches.map describePatch } } :
      WorkspaceState) := by
  have hitems : mapElems normalizeItemDescription (encode s.items) = encode s.items := by
    rw [mapElems_encode (g := fun i => i) normalizeItemDescription_item, List.map_id']
  have hactivities := mapElems_encode mapPatches_encode s.activities
  have hstart : describedState (encode s) =
      ((encode s).setKey "items" (mapElems normalizeItemDescription (encode s.items))).setKey
        "activities" (mapElems (mapPatches normalizePatchDescription) (encode s.activities)) := rfl
  rw [hstart, hitems, hactivities]
  rfl

/-- The second: the receipts, each once. -/
theorem receivedState_encode (s : WorkspaceState) :
    receivedState (encode s) = encode ({ s with
      commandReceipts := uniq s.commandReceipts } : WorkspaceState) := by
  have hreceipts : JsValue.arr (dedupe [] (s.commandReceipts.map .str)) =
      encode (uniq s.commandReceipts) := by
    have h := dedupe_strings [] s.commandReceipts
    rw [List.map_nil] at h
    rw [h]
    rfl
  have hstart : receivedState (encode s) = (encode s).setKey "commandReceipts"
      (.arr (dedupe [] (s.commandReceipts.map .str))) := rfl
  rw [hstart, hreceipts]
  rfl

/-- The third: the orders. -/
theorem orderedState_encode (s : WorkspaceState) :
    orderedState (encode s) = encode ({ s with
      activities := (orderEach orderActivityTyped (orderEach orderTyped ⟨[], []⟩ s.items).1
        s.activities).2
      items := (orderEach orderTyped ⟨[], []⟩ s.items).2 } : WorkspaceState) := by
  have hitems := orderElems_encode orderItem_encode ⟨[], []⟩ s.items
  have hactivities := orderElems_encode orderActivity_encode
    (orderEach orderTyped ⟨[], []⟩ s.items).1 s.activities
  have hstart : orderedState (encode s) =
      ((encode s).setKey "items" (orderElems orderItem ⟨[], []⟩ (encode s.items)).2).setKey
        "activities" (orderElems orderActivity (orderElems orderItem ⟨[], []⟩ (encode s.items)).1
          (encode s.activities)).2 := rfl
  rw [hstart, hitems, hactivities]
  rfl

/-- **Normalising the value of a state gives the value of the normalised state.** -/
theorem normalizeWorkspaceState_encode (s : WorkspaceState) :
    normalizeWorkspaceState (encode s) = encode (normalizeState s) := by
  rw [normalizeWorkspaceState_eq rfl rfl, describedState_encode, receivedState_encode,
    orderedState_encode]
  rfl

/-- **A state in memory always normalises.** -/
theorem normalized_eq (s : WorkspaceState) : normalized s = some (normalizeState s) := by
  unfold normalized
  rw [normalizeWorkspaceState_encode, Codec.decode_encode]

end Stowplan
