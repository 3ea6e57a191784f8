/-
  File:      Stowplan/Domain/Edits.lean
  Subject:   TYPED EDITS and the patches that describe them.

  What a command does to a workspace is a sequence of small edits: a field set, a record added,
  a record removed. `Edited s p t` says that the patch `p` is the description of one edit from
  `s` to `t`: its before-value is what `s` shows, its after-value what `t` shows. `Describes`
  is the same for a list of patches.

  * `apply_of_edited`, `applyPatches_of_describes`: applying the description is making the edit;
  * `describes_discards`, `describes_progress`, `describes_location_entries`, …: the groups of
    patches the commands are built from.
-/
import Stowplan.Domain.Entries
import Stowplan.Domain.Commands.Guards

namespace Stowplan

open Keyed JsValue

/-- No two records of a kind have the same identifier. -/
structure Unique (s : WorkspaceState) : Prop where
  items : (s.items.map ItemRecord.id).Nodup
  locations : (s.locations.map Location.id).Nodup
  plans : (s.plans.map MovePlan.id).Nodup

/-- No two items, and no two locations, have the same identifier; nothing is said of the plans. -/
structure UniqueRecords (s : WorkspaceState) : Prop where
  items : (s.items.map ItemRecord.id).Nodup
  locations : (s.locations.map Location.id).Nodup

theorem Unique.records {s : WorkspaceState} (hu : Unique s) : UniqueRecords s :=
  ⟨hu.items, hu.locations⟩

/-- The plan set aside. -/
def MovePlan.discard (p : MovePlan) : MovePlan := { p with status := .discarded }

/-- The location with its capture in progress. -/
def Location.begin (timestamp : String) (l : Location) : Location :=
  { l with captureStatus := .inProgress, updatedAt := timestamp }

namespace WorkspaceState

/-- The item with an identifier changed by a function. -/
def modifyItem (s : WorkspaceState) (id : String) (f : ItemRecord → ItemRecord) :
    WorkspaceState :=
  { s with items := modifyKey ItemRecord.id id f s.items }

/-- The location with an identifier changed by a function. -/
def modifyLocation (s : WorkspaceState) (id : String) (f : Location → Location) :
    WorkspaceState :=
  { s with locations := modifyKey Location.id id f s.locations }

/-- The plan with an identifier changed by a function. -/
def modifyPlan (s : WorkspaceState) (id : String) (f : MovePlan → MovePlan) : WorkspaceState :=
  { s with plans := modifyKey MovePlan.id id f s.plans }

/-- The item with the identifier of the given one replaced by it. -/
def putItem (s : WorkspaceState) (i : ItemRecord) : WorkspaceState :=
  { s with items := replaceKey ItemRecord.id i s.items }

/-- The location with the identifier of the given one replaced by it. -/
def putLocation (s : WorkspaceState) (l : Location) : WorkspaceState :=
  { s with locations := replaceKey Location.id l s.locations }

/-- The plan with the identifier of the given one replaced by it. -/
def putPlan (s : WorkspaceState) (p : MovePlan) : WorkspaceState :=
  { s with plans := replaceKey MovePlan.id p s.plans }

/-- One more item, at the end. -/
def addItem (s : WorkspaceState) (i : ItemRecord) : WorkspaceState :=
  { s with items := s.items ++ [i] }

/-- One more location, at the end. -/
def addLocation (s : WorkspaceState) (l : Location) : WorkspaceState :=
  { s with locations := s.locations ++ [l] }

/-- One more plan, at the end. -/
def addPlan (s : WorkspaceState) (p : MovePlan) : WorkspaceState :=
  { s with plans := s.plans ++ [p] }

/-- The items without the one with the identifier. -/
def dropItem (s : WorkspaceState) (id : String) : WorkspaceState :=
  { s with items := s.items.filter fun i => i.id ≠ id }

/-- The locations without the one with the identifier. -/
def dropLocation (s : WorkspaceState) (id : String) : WorkspaceState :=
  { s with locations := s.locations.filter fun l => l.id ≠ id }

/-- The workspace under another name. -/
def rename (s : WorkspaceState) (name : String) : WorkspaceState :=
  { s with workspace := { s.workspace with name } }

/-- Several items replaced. -/
def putItems (s : WorkspaceState) (is : List ItemRecord) : WorkspaceState :=
  is.foldl putItem s

/-- Several items more, at the end. -/
def addItems (s : WorkspaceState) (is : List ItemRecord) : WorkspaceState :=
  { s with items := s.items ++ is }

/-- The items without those with the identifiers. -/
def dropItems (s : WorkspaceState) (ids : List String) : WorkspaceState :=
  { s with items := s.items.filter fun i => i.id ∉ ids }

/-- The locations without those with the identifiers. -/
def dropLocations (s : WorkspaceState) (ids : List String) : WorkspaceState :=
  { s with locations := s.locations.filter fun l => l.id ∉ ids }

/-- The plans with the identifiers discarded. -/
def discardPlans (s : WorkspaceState) (ids : List String) : WorkspaceState :=
  { s with plans := mapKeys MovePlan.id ids MovePlan.discard s.plans }

/-- The locations with the identifiers set in progress. -/
def setProgress (s : WorkspaceState) (ids : List String) (timestamp : String) :
    WorkspaceState :=
  { s with locations := mapKeys Location.id ids (Location.begin timestamp) s.locations }

end WorkspaceState

@[simp] theorem putItems_locations (s : WorkspaceState) (is : List ItemRecord) :
    (s.putItems is).locations = s.locations := by
  induction is generalizing s with
  | nil => rfl
  | cons i is ih => exact ih (s.putItem i)

theorem putItems_discardPlans (s : WorkspaceState) (is : List ItemRecord) (ids : List String) :
    (s.discardPlans ids).putItems is = (s.putItems is).discardPlans ids := by
  induction is generalizing s with
  | nil => rfl
  | cons i is ih => exact ih (s.putItem i)

/-- One item is dropped as a list of one is. -/
theorem dropItem_eq (s : WorkspaceState) (id : String) : s.dropItem id = s.dropItems [id] := by
  simp [WorkspaceState.dropItem, WorkspaceState.dropItems]

theorem dropLocations_congr (s : WorkspaceState) {a b : List String} (h : ∀ x, x ∈ a ↔ x ∈ b) :
    s.dropLocations a = s.dropLocations b := by
  unfold WorkspaceState.dropLocations
  congr 1
  exact List.filter_congr fun l _ => by simp [h]

theorem dropItems_congr (s : WorkspaceState) {a b : List String} (h : ∀ x, x ∈ a ↔ x ∈ b) :
    s.dropItems a = s.dropItems b := by
  unfold WorkspaceState.dropItems
  congr 1
  exact List.filter_congr fun i _ => by simp [h]

/-! ## 1. One edit -/

/-- The patch describes an edit of the one state into the other. -/
inductive Edited : WorkspaceState → FieldPatch → WorkspaceState → Prop where
  | item {s : WorkspaceState} {i : ItemRecord} (e : ItemEntry) (h : findItem s i.id = some i) :
      Edited s (patch .item i.id e.key (e.here i).value e.value) (s.modifyItem i.id e.put)
  | location {s : WorkspaceState} {l : Location} (e : LocationEntry)
      (h : findLocation s l.id = some l) :
      Edited s (patch .location l.id e.key (e.here l).value e.value)
        (s.modifyLocation l.id e.put)
  | plan {s : WorkspaceState} {p : MovePlan} (e : PlanEntry) (h : findPlan s p.id = some p) :
      Edited s (patch .plan p.id e.key (e.here p).value e.value) (s.modifyPlan p.id e.put)
  | rename {s : WorkspaceState} (name : String) :
      Edited s (patch .workspace s.workspace.id "name" (encode s.workspace.name) (encode name))
        (s.rename name)
  | addItem {s : WorkspaceState} (i : ItemRecord) (h : findItem s i.id = none) :
      Edited s (patch .item i.id "" .undefined (encode i)) (s.addItem i)
  | addLocation {s : WorkspaceState} (l : Location) (h : findLocation s l.id = none) :
      Edited s (patch .location l.id "" .undefined (encode l)) (s.addLocation l)
  | addPlan {s : WorkspaceState} (p : MovePlan) (h : findPlan s p.id = none) :
      Edited s (patch .plan p.id "" .undefined (encode p)) (s.addPlan p)
  | dropItem {s : WorkspaceState} (i : ItemRecord) (h : findItem s i.id = some i) :
      Edited s (patch .item i.id "" (encode i) .undefined) (s.dropItem i.id)
  | dropLocation {s : WorkspaceState} (l : Location) (h : findLocation s l.id = some l) :
      Edited s (patch .location l.id "" (encode l) .undefined) (s.dropLocation l.id)

/-- The patches describe edits of the one state into the other, one after another. -/
inductive Describes : WorkspaceState → List FieldPatch → WorkspaceState → Prop where
  | nil (s : WorkspaceState) : Describes s [] s
  | cons {s t u : WorkspaceState} {p : FieldPatch} {ps : List FieldPatch} (h : Edited s p t)
      (rest : Describes t ps u) : Describes s (p :: ps) u

theorem Describes.single {s t : WorkspaceState} {p : FieldPatch} (h : Edited s p t) :
    Describes s [p] t :=
  .cons h (.nil t)

/-- Descriptions follow one another. -/
theorem Describes.append {s t u : WorkspaceState} {ps qs : List FieldPatch}
    (h : Describes s ps t) (h' : Describes t qs u) : Describes s (ps ++ qs) u := by
  induction h with
  | nil => exact h'
  | cons he _ ih => exact .cons he (ih h')

/-! ## 2. Applying the description makes the edit -/

section Collections

variable {α ε : Type} [Entity α] [FieldEntry ε α]

/-- The patch of a field sets it in the record with the identifier. -/
theorem patchCollection_field (e : ε) {l : List α} (hn : (l.map idOf).Nodup) {a : α}
    (h : findKey idOf (idOf a) l = some a) (target : PatchTarget) (before : JsValue) :
    patchCollection l
      (patch target (idOf a) (FieldEntry.key e) before (FieldEntry.value e)) =
      .ok (modifyKey idOf (idOf a) (FieldEntry.put e) l) := by
  have hne := FieldEntry.key_ne_empty (α := α) e
  simp only [patchCollection, patch, if_neg hne, h]
  rw [FieldEntry.write e a]
  simp only [decodeRecord, bind, Except.bind, Codec.decode_encode]
  rw [setFirst_eq_modifyKey hn h]

/-- It leaves the records there are, also where several have one identifier. -/
theorem patchCollection_ids (e : ε) {l l' : List α} {target : PatchTarget} {id : String}
    {before : JsValue}
    (h : patchCollection l (patch target id (FieldEntry.key e) before (FieldEntry.value e)) =
      .ok l') : l'.map idOf = l.map idOf := by
  have hne := FieldEntry.key_ne_empty (α := α) e
  cases ha : findKey idOf id l with
  | none =>
      simp only [patchCollection, patch, if_neg hne, ha] at h
      cases h
  | some a =>
      simp only [patchCollection, patch, if_neg hne, ha] at h
      rw [FieldEntry.write e a] at h
      simp only [decodeRecord, bind, Except.bind, Codec.decode_encode, Except.ok.injEq] at h
      rw [← h]
      exact map_setFirst_of_findKey ha (FieldEntry.idOf_put e a)

omit [FieldEntry ε α] in

/-- The patch of a whole record that is not there adds it. -/
theorem patchCollection_add {l : List α} {a : α}
    (h : findKey idOf (idOf a) l = none) (hne : encode a ≠ .undefined) (target : PatchTarget)
    (before : JsValue) :
    patchCollection l (patch target (idOf a) "" before (encode a)) = .ok (l ++ [a]) := by
  simp only [patchCollection, patch, if_true, if_neg hne, decodeRecord, Codec.decode_encode, h,
    Option.isSome_none, Bool.false_eq_true, if_false, bind, Except.bind]

omit [FieldEntry ε α] in

/-- The patch of a whole record with nothing behind it drops the record. -/
theorem patchCollection_drop {l : List α} (hn : (l.map idOf).Nodup) (id : String)
    (target : PatchTarget) (before : JsValue) :
    patchCollection l (patch target id "" before .undefined) =
      .ok (l.filter fun a => idOf a ≠ id) := by
  simp only [patchCollection, patch, if_true]
  rw [dropFirst_eq_filter hn]

end Collections

/-- A patch of an item is applied to the items alone. -/
theorem apply_items {s : WorkspaceState} {id path : String} {before after : JsValue}
    {items : List ItemRecord}
    (h : patchCollection s.items (patch .item id path before after) = .ok items) :
    applyFieldPatch s (patch .item id path before after) = .ok { s with items } := by
  show (do return { s with items := ← patchCollection s.items _ } : Result _) = _
  rw [h]
  rfl

/-- A patch of a location is applied to the locations alone. -/
theorem apply_locations {s : WorkspaceState} {id path : String} {before after : JsValue}
    {locations : List Location}
    (h : patchCollection s.locations (patch .location id path before after) = .ok locations) :
    applyFieldPatch s (patch .location id path before after) = .ok { s with locations } := by
  show (do return { s with locations := ← patchCollection s.locations _ } : Result _) = _
  rw [h]
  rfl

/-- A patch of a plan is applied to the plans alone. -/
theorem apply_plans {s : WorkspaceState} {id path : String} {before after : JsValue}
    {plans : List MovePlan}
    (h : patchCollection s.plans (patch .plan id path before after) = .ok plans) :
    applyFieldPatch s (patch .plan id path before after) = .ok { s with plans } := by
  show (do return { s with plans := ← patchCollection s.plans _ } : Result _) = _
  rw [h]
  rfl

/-- A patch does what it describes; for a patch of a plan the plans need to differ too. -/
theorem apply_of_edited {s t : WorkspaceState} {p : FieldPatch} (hr : UniqueRecords s)
    (hplans : p.target = .plan → (s.plans.map MovePlan.id).Nodup) (h : Edited s p t) :
    applyFieldPatch s p = .ok t := by
  cases h with
  | item e h => exact apply_items (patchCollection_field (α := ItemRecord) e hr.items h _ _)
  | location e h =>
      exact apply_locations (patchCollection_field (α := Location) e hr.locations h _ _)
  | plan e h =>
      exact apply_plans (patchCollection_field (α := MovePlan) e (hplans rfl) h _ _)
  | rename name =>
      have hw : patchWorkspace s.workspace (patch .workspace s.workspace.id "name"
          (encode s.workspace.name) (encode name)) = .ok { s.workspace with name } := by
        simp only [patchWorkspace, patch, if_neg (show ("name" : String) ≠ "" by decide), if_true]
        rw [write_workspace_name]
        simp only [decodeRecord, bind, Except.bind, Codec.decode_encode]
      show (do return { s with workspace := ← patchWorkspace s.workspace _ } : Result _) = _
      rw [hw]
      rfl
  | addItem i h =>
      exact apply_items (patchCollection_add (α := ItemRecord) h (fun e => nomatch e) _ _)
  | addLocation l h =>
      exact apply_locations (patchCollection_add (α := Location) h (fun e => nomatch e) _ _)
  | addPlan p h =>
      exact apply_plans (patchCollection_add (α := MovePlan) h (fun e => nomatch e) _ _)
  | dropItem i h => exact apply_items (patchCollection_drop (α := ItemRecord) hr.items _ _ _)
  | dropLocation l h =>
      exact apply_locations (patchCollection_drop (α := Location) hr.locations _ _ _)

/-- Patches of items only read and change the items. -/
theorem Describes.items_only {s t : WorkspaceState} {ps : List FieldPatch} (h : Describes s ps t)
    (hps : ∀ p ∈ ps, p.target = .item) {u : WorkspaceState} (hu : u.items = s.items) :
    Describes u ps { u with items := t.items } := by
  induction h generalizing u with
  | nil s =>
      rw [← hu]
      exact .nil u
  | cons he _ ih =>
      have htarget := hps _ List.mem_cons_self
      have hrest := fun p hp => hps p (List.mem_cons_of_mem _ hp)
      cases he with
      | item e hi =>
          refine .cons (.item e (by unfold findItem; rw [hu]; exact hi)) ?_
          exact ih hrest (u := u.modifyItem _ e.put) (by
            simp only [WorkspaceState.modifyItem, hu])
      | addItem i hi =>
          refine .cons (.addItem i (by unfold findItem; rw [hu]; exact hi)) ?_
          exact ih hrest (u := u.addItem i) (by simp only [WorkspaceState.addItem, hu])
      | dropItem i hi =>
          refine .cons (.dropItem i (by unfold findItem; rw [hu]; exact hi)) ?_
          exact ih hrest (u := u.dropItem i.id) (by simp only [WorkspaceState.dropItem, hu])
      | _ => cases htarget

/-! ## 3. Identifiers -/

@[simp] theorem ItemEntry.put_id (e : ItemEntry) (i : ItemRecord) : (e.put i).id = i.id :=
  FieldEntry.idOf_put (α := ItemRecord) e i

@[simp] theorem LocationEntry.put_id (e : LocationEntry) (l : Location) : (e.put l).id = l.id :=
  FieldEntry.idOf_put (α := Location) e l

@[simp] theorem PlanEntry.put_id (e : PlanEntry) (p : MovePlan) : (e.put p).id = p.id :=
  FieldEntry.idOf_put (α := MovePlan) e p

/-- Changing a record keeps identifiers unique, where the change keeps the record's own. -/
theorem Unique.modifyItem {s : WorkspaceState} (hu : Unique s) (id : String)
    {f : ItemRecord → ItemRecord} (hf : ∀ i, (f i).id = i.id) : Unique (s.modifyItem id f) := by
  refine ⟨?_, hu.locations, hu.plans⟩
  show ((modifyKey _ _ _ s.items).map _).Nodup
  rw [map_modifyKey hf]
  exact hu.items

theorem Unique.modifyLocation {s : WorkspaceState} (hu : Unique s) (id : String)
    {f : Location → Location} (hf : ∀ l, (f l).id = l.id) : Unique (s.modifyLocation id f) := by
  refine ⟨hu.items, ?_, hu.plans⟩
  show ((modifyKey _ _ _ s.locations).map _).Nodup
  rw [map_modifyKey hf]
  exact hu.locations

theorem Unique.modifyPlan {s : WorkspaceState} (hu : Unique s) (id : String)
    {f : MovePlan → MovePlan} (hf : ∀ p, (f p).id = p.id) : Unique (s.modifyPlan id f) := by
  refine ⟨hu.items, hu.locations, ?_⟩
  show ((modifyKey _ _ _ s.plans).map _).Nodup
  rw [map_modifyKey hf]
  exact hu.plans

theorem Unique.putItem {s : WorkspaceState} (hu : Unique s) (i : ItemRecord) :
    Unique (s.putItem i) :=
  ⟨by simpa [WorkspaceState.putItem] using hu.items, hu.locations, hu.plans⟩

theorem Unique.putLocation {s : WorkspaceState} (hu : Unique s) (l : Location) :
    Unique (s.putLocation l) :=
  ⟨hu.items, by simpa [WorkspaceState.putLocation] using hu.locations, hu.plans⟩

theorem Unique.putPlan {s : WorkspaceState} (hu : Unique s) (p : MovePlan) :
    Unique (s.putPlan p) :=
  ⟨hu.items, hu.locations, by simpa [WorkspaceState.putPlan] using hu.plans⟩

/-- Changing the record with an identifier replaces it by the changed one. -/
theorem modifyItem_eq_putItem {s : WorkspaceState} (hr : UniqueRecords s) {i : ItemRecord}
    (h : findItem s i.id = some i) {f : ItemRecord → ItemRecord} (hf : (f i).id = i.id) :
    s.modifyItem i.id f = s.putItem (f i) := by
  unfold WorkspaceState.modifyItem WorkspaceState.putItem
  rw [modifyKey_eq_replaceKey hr.items h hf]

theorem modifyLocation_eq_putLocation {s : WorkspaceState} (hr : UniqueRecords s) {l : Location}
    (h : findLocation s l.id = some l) {f : Location → Location} (hf : (f l).id = l.id) :
    s.modifyLocation l.id f = s.putLocation (f l) := by
  unfold WorkspaceState.modifyLocation WorkspaceState.putLocation
  rw [modifyKey_eq_replaceKey hr.locations h hf]

theorem modifyPlan_eq_putPlan {s : WorkspaceState} (hn : (s.plans.map MovePlan.id).Nodup)
    {p : MovePlan} (h : findPlan s p.id = some p) {f : MovePlan → MovePlan} (hf : (f p).id = p.id) :
    s.modifyPlan p.id f = s.putPlan (f p) := by
  unfold WorkspaceState.modifyPlan WorkspaceState.putPlan
  rw [modifyKey_eq_replaceKey hn h hf]

/-- Other items are found as before. -/
theorem findItem_putItem_ne {s : WorkspaceState} {i : ItemRecord} {id : String} (h : id ≠ i.id) :
    findItem (s.putItem i) id = findItem s id := by
  show findKey _ _ (replaceKey _ _ _) = _
  rw [findKey_replaceKey, if_neg h]
  rfl

/-- Of two replacements, the second stays. -/
theorem putLocation_putLocation (s : WorkspaceState) {l m : Location} (h : l.id = m.id) :
    (s.putLocation l).putLocation m = s.putLocation m := by
  unfold WorkspaceState.putLocation
  rw [replaceKey_replaceKey h]

theorem putPlan_putPlan (s : WorkspaceState) {p q : MovePlan} (h : p.id = q.id) :
    (s.putPlan p).putPlan q = s.putPlan q := by
  unfold WorkspaceState.putPlan
  rw [replaceKey_replaceKey h]

/-- A plan that was replaced is found. -/
theorem findPlan_putPlan {s : WorkspaceState} {p q : MovePlan}
    (hp : findPlan s p.id = some p) (h : q.id = p.id) : findPlan (s.putPlan q) q.id = some q := by
  show findKey _ _ (replaceKey _ _ _) = _
  rw [findKey_replaceKey, if_pos rfl, h]
  show (findPlan s p.id).map _ = _
  rw [hp]
  rfl

/-- A location that was replaced is found. -/
theorem findLocation_putLocation {s : WorkspaceState} {l m : Location}
    (hl : findLocation s l.id = some l) (h : m.id = l.id) :
    findLocation (s.putLocation m) m.id = some m := by
  show findKey _ _ (replaceKey _ _ _) = _
  rw [findKey_replaceKey, if_pos rfl, h]
  show (findLocation s l.id).map _ = _
  rw [hl]
  rfl

/-- One edit keeps the identifiers distinct. -/
theorem unique_of_edited {s t : WorkspaceState} {p : FieldPatch} (hu : Unique s)
    (h : Edited s p t) : Unique t := by
  cases h with
  | item e h => exact hu.modifyItem _ e.put_id
  | location e h => exact hu.modifyLocation _ e.put_id
  | plan e h => exact hu.modifyPlan _ e.put_id
  | rename name => exact ⟨hu.items, hu.locations, hu.plans⟩
  | addItem i h => exact ⟨nodup_append_new hu.items h, hu.locations, hu.plans⟩
  | addLocation l h => exact ⟨hu.items, nodup_append_new hu.locations h, hu.plans⟩
  | addPlan p h => exact ⟨hu.items, hu.locations, nodup_append_new hu.plans h⟩
  | dropItem i h => exact ⟨nodup_filter hu.items _, hu.locations, hu.plans⟩
  | dropLocation l h => exact ⟨hu.items, nodup_filter hu.locations _, hu.plans⟩

/-- Patches that describe a change of records keep identifiers unique. -/
theorem unique_of_describes {s t : WorkspaceState} {ps : List FieldPatch} (hu : Unique s)
    (h : Describes s ps t) : Unique t := by
  induction h with
  | nil => exact hu
  | cons he _ ih => exact ih (unique_of_edited hu he)

/-- **Applying the patches makes the edits they describe.** -/
theorem applyPatches_of_describes {s t : WorkspaceState} {ps : List FieldPatch} (hu : Unique s)
    (h : Describes s ps t) : applyPatches s ps = .ok t := by
  induction h with
  | nil => rfl
  | cons he _ ih =>
      rw [applyPatches, apply_of_edited hu.records (fun _ => hu.plans) he]
      exact ih (unique_of_edited hu he)

/-! ## 4. Groups of patches -/

section Groups

variable {s : WorkspaceState}

/-- The discard patches describe the plans discarded. -/
theorem describes_discards {ps : List MovePlan} (hn : (ps.map MovePlan.id).Nodup)
    (h : ∀ p ∈ ps, findPlan s p.id = some p) :
    Describes s (ps.map discardPatch) (s.discardPlans (ps.map MovePlan.id)) := by
  induction ps generalizing s with
  | nil =>
      have e : s.discardPlans [] = s := by simp [WorkspaceState.discardPlans]
      simpa [e] using Describes.nil s
  | cons p ps ih =>
      simp only [List.map_cons, List.nodup_cons] at hn
      have hp := h p List.mem_cons_self
      have hrest : ∀ q ∈ ps, findPlan (s.modifyPlan p.id (PlanEntry.status .discarded).put) q.id =
          some q := by
        intro q hq
        have hne : q.id ≠ p.id := fun e => hn.1 (e ▸ List.mem_map_of_mem hq)
        show findKey _ _ (modifyKey _ _ _ _) = _
        rw [findKey_modifyKey (PlanEntry.put_id _), if_neg hne]
        exact h q (List.mem_cons_of_mem _ hq)
      have e : (s.modifyPlan p.id (PlanEntry.status .discarded).put).discardPlans
          (ps.map MovePlan.id) = s.discardPlans ((p :: ps).map MovePlan.id) := by
        unfold WorkspaceState.discardPlans WorkspaceState.modifyPlan
        rw [List.map_cons, ← mapKeys_modifyKey (f := MovePlan.discard) (fun _ => rfl) hn.1]
        rfl
      rw [← e]
      exact .cons (.plan (.status .discarded) hp) (ih hn.2 hrest)

/-- The plans that a change makes stale, discarded. -/
theorem describes_invalidation (hn : (s.plans.map MovePlan.id).Nodup) (p : MovePlan → Bool) :
    Describes s ((s.plans.filter p).map discardPatch)
      (s.discardPlans ((s.plans.filter p).map MovePlan.id)) := by
  refine describes_discards (nodup_filter hn p) fun q hq => ?_
  exact findKey_of_mem hn (List.mem_filter.mp hq).1

/-- The progress patches describe the spaces in progress. -/
theorem describes_progress {ls : List Location} {timestamp : String}
    (hn : (ls.map Location.id).Nodup)
    (h : ∀ l ∈ ls, ∃ m, findLocation s l.id = some m ∧ m.captureStatus = l.captureStatus ∧
      m.updatedAt = l.updatedAt) :
    Describes s (ls.flatMap fun l => progressPatches l timestamp)
      (s.setProgress (ls.map Location.id) timestamp) := by
  induction ls generalizing s with
  | nil =>
      have e : s.setProgress [] timestamp = s := by simp [WorkspaceState.setProgress]
      simpa [e] using Describes.nil s
  | cons l ls ih =>
      simp only [List.map_cons, List.nodup_cons] at hn
      obtain ⟨m, hm, hc, hts⟩ := h l List.mem_cons_self
      have hml : m.id = l.id := (findKey_some hm).2
      let f : Location → Location := (LocationEntry.captureStatus .inProgress).put
      let g : Location → Location := (LocationEntry.updatedAt timestamp).put
      have hm0 : findLocation s m.id = some m := by rw [hml]; exact hm
      have hm1 : findLocation (s.modifyLocation m.id f) m.id = some (f m) := by
        show findKey _ _ (modifyKey _ _ _ _) = _
        rw [findKey_modifyKey (LocationEntry.put_id _), if_pos rfl]
        exact congrArg (Option.map f) hm0
      have hrest : ∀ k ∈ ls, ∃ m', findLocation
          ((s.modifyLocation m.id f).modifyLocation m.id g) k.id = some m' ∧
          m'.captureStatus = k.captureStatus ∧ m'.updatedAt = k.updatedAt := by
        intro k hk
        have hne : k.id ≠ l.id := fun e => hn.1 (e ▸ List.mem_map_of_mem hk)
        obtain ⟨m', hm', h'⟩ := h k (List.mem_cons_of_mem _ hk)
        refine ⟨m', ?_, h'⟩
        show findKey _ _ (modifyKey _ _ _ (modifyKey _ _ _ _)) = _
        rw [findKey_modifyKey (LocationEntry.put_id _),
          if_neg (show k.id ≠ m.id from hml ▸ hne),
          findKey_modifyKey (LocationEntry.put_id _),
          if_neg (show k.id ≠ m.id from hml ▸ hne)]
        exact hm'
      have e : ((s.modifyLocation m.id f).modifyLocation m.id g).setProgress
          (ls.map Location.id) timestamp =
          s.setProgress ((l :: ls).map Location.id) timestamp := by
        unfold WorkspaceState.setProgress WorkspaceState.modifyLocation
        rw [List.map_cons, ← mapKeys_modifyKey (f := Location.begin timestamp) (fun _ => rfl) hn.1]
        show ({ s with locations := mapKeys _ _ _ (modifyKey _ m.id g (modifyKey _ m.id f _)) } :
          WorkspaceState) = _
        rw [modifyKey_modifyKey (LocationEntry.put_id _), hml]
        rfl
      have p1 : patch .location l.id "captureStatus" (encode l.captureStatus)
          (encode CaptureStatus.inProgress) = patch .location m.id
          (LocationEntry.captureStatus .inProgress).key
          ((LocationEntry.captureStatus .inProgress).here m).value
          (LocationEntry.captureStatus .inProgress).value := by
        rw [hml, ← hc]
        rfl
      have p2 : patch .location l.id "updatedAt" (encode l.updatedAt) (encode timestamp) =
          patch .location m.id (LocationEntry.updatedAt timestamp).key
          ((LocationEntry.updatedAt timestamp).here (f m)).value
          (LocationEntry.updatedAt timestamp).value := by
        show _ = patch .location m.id "updatedAt" (encode m.updatedAt) (encode timestamp)
        rw [hml, ← hts]
      rw [← e, List.flatMap_cons]
      show Describes s (_ :: _ :: _) _
      rw [p1, p2]
      exact .cons (.location (.captureStatus .inProgress) hm0)
        (.cons (.location (l := f m) (.updatedAt timestamp) hm1) (ih hn.2 hrest))

/-- Fields of one location set one after another. -/
theorem describes_location_entries {l m : Location} (hm : findLocation s l.id = some m)
    {es : List LocationEntry} (hhere : ∀ e ∈ es, e.here m = e.here l)
    (hp : Apart es) :
    Describes s (es.map fun e => patch .location l.id e.key (e.here l).value e.value)
      (s.modifyLocation l.id (putAll es)) := by
  induction es generalizing s m with
  | nil =>
      have e : s.modifyLocation l.id (putAll ([] : List LocationEntry)) = s := by
        simp [WorkspaceState.modifyLocation, modifyKey, putAll]
      simpa [e] using Describes.nil s
  | cons e es ih =>
      have hml : m.id = l.id := (findKey_some hm).2
      unfold Apart at hp
      rw [List.pairwise_cons] at hp
      have hm1 : findLocation (s.modifyLocation l.id e.put) l.id = some (e.put m) := by
        show findKey _ _ (modifyKey _ _ _ _) = _
        rw [findKey_modifyKey e.put_id, if_pos rfl]
        show (findLocation s l.id).map e.put = _
        rw [hm]
        rfl
      have hrest := ih hm1 (fun e' he' => by
        exact (hp.1 e' he' m).trans (hhere e' (List.mem_cons_of_mem _ he'))) hp.2
      have hcomp : (s.modifyLocation l.id e.put).modifyLocation l.id (putAll es) =
          s.modifyLocation l.id (putAll (e :: es)) := by
        unfold WorkspaceState.modifyLocation
        rw [modifyKey_modifyKey e.put_id]
        rfl
      rw [← hcomp, List.map_cons, ← hhere e List.mem_cons_self]
      have hm0 : findLocation s m.id = some m := by rw [hml]; exact hm
      have hstep : Edited s (patch .location l.id e.key (e.here m).value e.value)
          (s.modifyLocation l.id e.put) := by
        have := Edited.location e hm0
        rwa [hml] at this
      exact .cons hstep hrest

/-- Fields of one item set one after another. -/
theorem describes_item_entries {i m : ItemRecord} (hm : findItem s i.id = some m)
    {es : List ItemEntry} (hhere : ∀ e ∈ es, e.here m = e.here i)
    (hp : Apart es) :
    Describes s (es.map fun e => patch .item i.id e.key (e.here i).value e.value)
      (s.modifyItem i.id (putAll es)) := by
  induction es generalizing s m with
  | nil =>
      have e : s.modifyItem i.id (putAll ([] : List ItemEntry)) = s := by
        simp [WorkspaceState.modifyItem, modifyKey, putAll]
      simpa [e] using Describes.nil s
  | cons e es ih =>
      have hml : m.id = i.id := (findKey_some hm).2
      unfold Apart at hp
      rw [List.pairwise_cons] at hp
      have hm1 : findItem (s.modifyItem i.id e.put) i.id = some (e.put m) := by
        show findKey _ _ (modifyKey _ _ _ _) = _
        rw [findKey_modifyKey e.put_id, if_pos rfl]
        show (findItem s i.id).map e.put = _
        rw [hm]
        rfl
      have hrest := ih hm1 (fun e' he' => by
        exact (hp.1 e' he' m).trans (hhere e' (List.mem_cons_of_mem _ he'))) hp.2
      have hcomp : (s.modifyItem i.id e.put).modifyItem i.id (putAll es) =
          s.modifyItem i.id (putAll (e :: es)) := by
        unfold WorkspaceState.modifyItem
        rw [modifyKey_modifyKey e.put_id]
        rfl
      rw [← hcomp, List.map_cons, ← hhere e List.mem_cons_self]
      have hm0 : findItem s m.id = some m := by rw [hml]; exact hm
      have hstep : Edited s (patch .item i.id e.key (e.here m).value e.value)
          (s.modifyItem i.id e.put) := by
        have := Edited.item e hm0
        rwa [hml] at this
      exact .cons hstep hrest

/-- The patches of new items describe them added. -/
theorem describes_addItems {is : List ItemRecord} (hn : (is.map ItemRecord.id).Nodup)
    (h : ∀ i ∈ is, findItem s i.id = none) :
    Describes s (is.map fun i => patch .item i.id "" .undefined (encode i)) (s.addItems is) := by
  induction is generalizing s with
  | nil =>
      have e : s.addItems [] = s := by simp [WorkspaceState.addItems]
      simpa [e] using Describes.nil s
  | cons i is ih =>
      simp only [List.map_cons, List.nodup_cons] at hn
      have hrest : ∀ j ∈ is, findItem (s.addItem i) j.id = none := by
        intro j hj
        have hne : i.id ≠ j.id := fun e => hn.1 (e ▸ List.mem_map_of_mem hj)
        show findKey _ _ (s.items ++ [i]) = none
        rw [findKey_append, findKey_cons, if_neg hne]
        have := h j (List.mem_cons_of_mem _ hj)
        unfold findItem at this
        rw [this]
        rfl
      have e : (s.addItem i).addItems is = s.addItems (i :: is) := by
        simp [WorkspaceState.addItem, WorkspaceState.addItems]
      rw [← e, List.map_cons]
      exact .cons (.addItem i (h i List.mem_cons_self)) (ih hn.2 hrest)

/-- The patches of dropped items describe them gone. -/
theorem describes_dropItems {is : List ItemRecord} (hn : (is.map ItemRecord.id).Nodup)
    (h : ∀ i ∈ is, findItem s i.id = some i) :
    Describes s (is.map fun i => patch .item i.id "" (encode i) .undefined)
      (s.dropItems (is.map ItemRecord.id)) := by
  induction is generalizing s with
  | nil =>
      have e : s.dropItems [] = s := by simp [WorkspaceState.dropItems]
      simpa [e] using Describes.nil s
  | cons i is ih =>
      simp only [List.map_cons, List.nodup_cons] at hn
      have hrest : ∀ j ∈ is, findItem (s.dropItem i.id) j.id = some j := by
        intro j hj
        have hne : j.id ≠ i.id := fun e => hn.1 (e ▸ List.mem_map_of_mem hj)
        show findKey _ _ (s.items.filter _) = _
        rw [findKey_filter ItemRecord.id (fun k => decide (k ≠ i.id)),
          if_pos (by simpa using hne)]
        exact h j (List.mem_cons_of_mem _ hj)
      have e : (s.dropItem i.id).dropItems (is.map ItemRecord.id) =
          s.dropItems ((i :: is).map ItemRecord.id) := by
        unfold WorkspaceState.dropItem WorkspaceState.dropItems
        simp only [List.filter_filter]
        congr 1
        refine List.filter_congr fun j _ => ?_
        simp [Bool.and_comm]
      rw [← e, List.map_cons]
      exact .cons (.dropItem i (h i List.mem_cons_self)) (ih hn.2 hrest)

/-- The patches of dropped locations describe them gone. -/
theorem describes_dropLocations {ls : List Location} (hn : (ls.map Location.id).Nodup)
    (h : ∀ l ∈ ls, findLocation s l.id = some l) :
    Describes s (ls.map fun l => patch .location l.id "" (encode l) .undefined)
      (s.dropLocations (ls.map Location.id)) := by
  induction ls generalizing s with
  | nil =>
      have e : s.dropLocations [] = s := by simp [WorkspaceState.dropLocations]
      simpa [e] using Describes.nil s
  | cons l ls ih =>
      simp only [List.map_cons, List.nodup_cons] at hn
      have hrest : ∀ k ∈ ls, findLocation (s.dropLocation l.id) k.id = some k := by
        intro k hk
        have hne : k.id ≠ l.id := fun e => hn.1 (e ▸ List.mem_map_of_mem hk)
        show findKey _ _ (s.locations.filter _) = _
        rw [findKey_filter Location.id (fun k => decide (k ≠ l.id)),
          if_pos (by simpa using hne)]
        exact h k (List.mem_cons_of_mem _ hk)
      have e : (s.dropLocation l.id).dropLocations (ls.map Location.id) =
          s.dropLocations ((l :: ls).map Location.id) := by
        unfold WorkspaceState.dropLocation WorkspaceState.dropLocations
        simp only [List.filter_filter]
        congr 1
        refine List.filter_congr fun k _ => ?_
        simp [Bool.and_comm]
      rw [← e, List.map_cons]
      exact .cons (.dropLocation l (h l List.mem_cons_self)) (ih hn.2 hrest)

end Groups

end Stowplan
