/-
  File:      Stowplan/Domain/Effects.lean
  Subject:   WHAT EACH COMMAND DOES, said once.

  `Effect s timestamp t` lists the kinds of change a command can make of a state, each with what
  the command has checked before it makes it. `normal_effect` says that an accepted command
  has such an effect and that its patches yield it; every invariant of the engine is then a
  statement about `Effect`, and no proof looks into the commands again.
-/
import Stowplan.Domain.Plans
import Stowplan.Domain.Commands.Apply

namespace Stowplan

open Keyed Forest Relation

/-! ## 1. What the progress of captures says -/

section Checks

variable {s : WorkspaceState}

/-- The items with the identifiers, in the order of the identifiers. -/
theorem items_of_mapM {ids : List String} {is : List ItemRecord}
    (h : ids.mapM (requireItem s) = .ok is) :
    is.map ItemRecord.id = ids ∧ ∀ i ∈ is, findItem s i.id = some i := by
  induction ids generalizing is with
  | nil =>
      rw [List.mapM_nil, result_pure_ok] at h
      subst h
      simp
  | cons id ids ih =>
      simp only [List.mapM_cons, result_bind_ok, result_pure_ok, requireItem_ok] at h
      obtain ⟨i, hi, is, his, rfl⟩ := h
      obtain ⟨hids, hfound⟩ := ih his
      have hid := (findItem_mem hi).2
      refine ⟨by rw [List.map_cons, hid, hids], fun j hj => ?_⟩
      rcases List.mem_cons.mp hj with rfl | hj
      · rw [hid]
        exact hi
      · exact hfound j hj

/-- The patches set locations in progress, those among them that were known empty at least. -/
structure Progress (s : WorkspaceState) (timestamp : String) (covers : List String)
    (patches : List FieldPatch) (ls : List Location) : Prop where
  nodup : (ls.map Location.id).Nodup
  found : ∀ l ∈ ls, findLocation s l.id = some l
  among : ∀ l ∈ ls, l.id ∈ covers
  patches_eq : patches = ls.flatMap fun l => progressPatches l timestamp
  covers : ∀ id ∈ covers, ∃ l, findLocation s id = some l ∧ l.active = true ∧
    (l.captureStatus = .knownEmpty → l ∈ ls)

theorem Progress.nil (s : WorkspaceState) (timestamp : String) : Progress s timestamp [] [] [] :=
  ⟨by simp, by simp, by simp, rfl, by simp⟩

/-- What the loop over the spaces patches, each space once. -/
theorem progressEach_ok {timestamp : String} {should : Location → Bool} {ids : List String}
    {patches : List FieldPatch} (hn : ids.Nodup)
    (hshould : ∀ l, findLocation s l.id = some l → l.active = true → l.id ∈ ids →
      l.captureStatus = .knownEmpty → should l = true)
    (h : progressEach s timestamp should ids = .ok patches) :
    ∃ ls, Progress s timestamp ids patches ls := by
  induction ids generalizing patches with
  | nil =>
      simp only [progressEach, Except.ok.injEq] at h
      rw [← h]
      exact ⟨[], Progress.nil s timestamp⟩
  | cons id ids ih =>
      simp only [progressEach, result_bind_ok, result_pure_ok, requireActiveLocation_ok] at h
      obtain ⟨l, ⟨hl, ha⟩, rest, hrest, rfl⟩ := h
      rw [List.nodup_cons] at hn
      have hid := (findKey_some hl).2
      obtain ⟨ls, hp⟩ := ih hn.2
        (fun m hf hma hm => hshould m hf hma (List.mem_cons_of_mem _ hm)) hrest
      by_cases hs : should l = true
      · refine ⟨l :: ls, ?_, ?_, ?_, ?_, ?_⟩
        · rw [List.map_cons, List.nodup_cons]
          refine ⟨fun hm => ?_, hp.nodup⟩
          obtain ⟨m, hm, he⟩ := List.mem_map.mp hm
          exact hn.1 (hid ▸ he ▸ hp.among m hm)
        · intro m hm
          rcases List.mem_cons.mp hm with rfl | hm
          · rw [hid]
            exact hl
          · exact hp.found m hm
        · intro m hm
          rcases List.mem_cons.mp hm with rfl | hm
          · rw [hid]
            exact List.mem_cons_self
          · exact List.mem_cons_of_mem _ (hp.among m hm)
        · rw [if_pos hs, hp.patches_eq, List.flatMap_cons]
        · intro j hj
          rcases List.mem_cons.mp hj with rfl | hj
          · exact ⟨l, hl, ha, fun _ => List.mem_cons_self⟩
          · obtain ⟨m, hm, hma, hmc⟩ := hp.covers j hj
            exact ⟨m, hm, hma, fun hc => List.mem_cons_of_mem _ (hmc hc)⟩
      · refine ⟨ls, hp.nodup, hp.found, fun m hm => List.mem_cons_of_mem _ (hp.among m hm), ?_, ?_⟩
        · rw [if_neg hs, hp.patches_eq, List.nil_append]
        · intro j hj
          rcases List.mem_cons.mp hj with rfl | hj
          · refine ⟨l, hl, ha, fun hc => absurd (hshould l ?_ ha ?_ hc) hs⟩
            · rw [hid]
              exact hl
            · rw [hid]
              exact List.mem_cons_self
          · exact hp.covers j hj

/-- What `validateLocation` has checked when it returns. -/
structure LocationChecked [Host] (s : WorkspaceState) (l : Location) (ignoreId : Option String) :
    Prop where
  id : blank l.id = false
  fresh : isSet ignoreId = false → findLocation s l.id = none
  name : blank l.name = false
  code : blank l.code = false
  order : l.order.isFinite = true
  dimensions : dimensionsValid l.dimensions = true
  parent : ∀ p, l.parentId = some p → blank p = false ∧ p ≠ l.id ∧
    ∃ m, findLocation s p = some m ∧ (l.active = true → m.active = true)
  outside : ∀ p, l.parentId = some p → isSet ignoreId = true →
    ∀ c ∈ descendantsOf s (ignoreId.getD ""), c.id ≠ p
  unused : ∀ m ∈ s.locations, some m.id ≠ ignoreId → m.active = true →
    codeKey m.code ≠ codeKey l.code

/-- What a location must be to be stored. -/
theorem validateLocation_ok [Host] {l : Location} {ignoreId : Option String} {u : Unit}
    (h : validateLocation s l ignoreId = .ok u) : LocationChecked s l ignoreId := by
  simp only [validateLocation, result_bind_ok, refuse_ok] at h
  obtain ⟨_, hid, _, hfresh, _, hname, _, hcode, _, horder, _, hdims, _, hblank, _, hself, _, hdesc,
    _, hcodes, h⟩ := h
  refine ⟨hid, ?_, hname, hcode, by simpa using horder, by simpa using hdims, ?_, ?_, ?_⟩
  · intro hi
    refine findKey_eq_none.mpr fun m hm he => ?_
    simp only [hi, Bool.not_false, Bool.true_and, List.any_eq_false, decide_eq_true_eq] at hfresh
    exact hfresh m hm he
  · intro p hp
    rw [hp] at hblank h hself
    have hp0 : p ≠ "" := ne_empty_of_not_blank hblank
    simp only [if_neg hp0, result_bind_ok, requireLocation_ok, refuse_ok, Bool.and_eq_false_iff,
      Bool.not_eq_false'] at h
    obtain ⟨m, hm, ha⟩ := h
    refine ⟨hblank, fun e => ?_, m, hm, fun hl => ?_⟩
    · simp [e] at hself
    · rcases ha with ha | ha
      · rw [hl] at ha
        cases ha
      · exact ha
  · intro p hp hi c hc he
    rw [hp] at hdesc hblank
    have hset : isSet (some p) = true := isSet_some (ne_empty_of_not_blank hblank)
    simp only [hi, hset, Bool.true_and, List.any_eq_false, decide_eq_true_eq] at hdesc
    exact hdesc c hc (by rw [he])
  · intro m hm hne ha he
    simp only [List.any_eq_false, Bool.and_eq_true, decide_eq_true_eq, not_and] at hcodes
    exact hcodes m hm ⟨hne, ha⟩ he

theorem nodup_uniq (l : List String) : (uniq l).Nodup := by
  have : ((fresh id [] l).map id).Nodup := nodup_fresh [] l
  rwa [List.map_id] at this

@[simp] theorem mem_uniq {l : List String} {x : String} : x ∈ uniq l ↔ x ∈ l := by
  constructor
  · exact fun h => (mem_fresh h).1
  · intro h
    rcases (mem_map_fresh h : id x ∈ [] ∨ id x ∈ (fresh id [] l).map id) with h | h
    · cases h
    · rwa [List.map_id] at h

/-- One space is put in progress. -/
theorem captureProgressPatches_ok {timestamp id : String} {patches : List FieldPatch}
    (h : captureProgressPatches s id timestamp = .ok patches) :
    ∃ ls, Progress s timestamp [id] patches ls := by
  simp only [captureProgressPatches, result_bind_ok, requireActiveLocation_ok,
    result_pure_ok] at h
  obtain ⟨l, ⟨hl, ha⟩, rfl⟩ := h
  have h : progressEach s timestamp
      (fun l => decide (¬ (l.captureStatus ≠ .uncounted ∧ l.captureStatus ≠ .knownEmpty))) [id] =
      .ok (if l.captureStatus ≠ .uncounted && l.captureStatus ≠ .knownEmpty then []
        else progressPatches l timestamp) := by
    have hl' : requireActiveLocation s id = .ok l := requireActiveLocation_ok.mpr ⟨hl, ha⟩
    simp only [progressEach, hl', bind, Except.bind, pure, Except.pure, List.append_nil]
    by_cases h1 : l.captureStatus = .uncounted <;> by_cases h2 : l.captureStatus = .knownEmpty <;>
      simp [h1, h2]
  exact progressEach_ok (List.nodup_singleton id) (fun m _ _ _ hm => by simp [hm]) h

/-- A space that is complete is not changed inside. -/
theorem captureContentsLoop_ok {checked : List String}
    {changes : List (ContentAction × Option String)}
    (h : captureContentsLoop s checked changes = .ok ()) :
    ∀ c ∈ changes, ∀ id, c.2 = some id → id ≠ "" → id ∉ checked → ∀ l,
      findLocation s id = some l → l.active = true → l.captureStatus.complete = false := by
  induction changes generalizing checked with
  | nil => simp
  | cons c changes ih =>
      obtain ⟨action, locationId⟩ := c
      simp only [captureContentsLoop] at h
      intro c hc id hid hne hnew l hl ha
      split at h
      · rename_i hskip
        rcases List.mem_cons.mp hc with rfl | hc
        · simp only at hid
          subst hid
          simp [isSet_some hne, hnew] at hskip
        · exact ih h c hc id hid hne hnew l hl ha
      · simp only [result_bind_ok, requireLocation_ok, refuse_ok, Bool.and_eq_false_iff] at h
        obtain ⟨m, hm, _, hopen, h⟩ := h
        have hdone : locationId.getD "" = id → l.captureStatus.complete = false := by
          intro he
          rw [he, hl] at hm
          cases hm
          rcases hopen with ho | ho
          · rw [ha] at ho
            cases ho
          · exact ho
        rcases List.mem_cons.mp hc with rfl | hc
        · exact hdone (by simp only at hid; simp [hid])
        · by_cases he : locationId.getD "" = id
          · exact hdone he
          · refine ih h c hc id hid hne (fun hin => ?_) l hl ha
            rcases List.mem_cons.mp hin with h | h
            · exact he h.symm
            · exact hnew h

/-- A location whose contents may be edited is not complete. -/
theorem assertCaptureContentsEditable_ok {changes : List (ContentAction × Option String)}
    {u : Unit} (h : assertCaptureContentsEditable s changes = .ok u) {action : ContentAction}
    {id : String} (hc : (action, some id) ∈ changes) (hne : id ≠ "") {l : Location}
    (hl : findLocation s id = some l) (ha : l.active = true) : l.captureStatus.complete = false :=
  captureContentsLoop_ok h _ hc id rfl hne (by simp) l hl ha

/-- The spaces a move leaves and enters are put in progress. -/
theorem bulkMoveProgress_ok {sources : List (Option String)} {destination : Option String}
    {timestamp : String} {patches : List FieldPatch}
    (h : bulkMoveCaptureProgressPatches s sources destination timestamp = .ok patches) :
    ∃ ls, Progress s timestamp (uniq ((sources ++ [destination]).filterMap id)) patches ls := by
  refine progressEach_ok (nodup_uniq _) (fun m _ _ _ hm => ?_) h
  simp [hm, CaptureStatus.complete]

end Checks

/-! ## 2. The kinds of change -/

/-- The plans that a change to the items and locations makes stale. -/
def stale (s : WorkspaceState) (itemIds locationIds : List String) : List String :=
  (s.plans.filter (planAffected s itemIds locationIds)).map MovePlan.id

/-- The location is active, and set in progress by the change if it was known empty. -/
def Entered (s : WorkspaceState) (ids : List String) (id : String) : Prop :=
  ∃ l, findLocation s id = some l ∧ l.active = true ∧ (l.captureStatus = .knownEmpty → l.id ∈ ids)

/-- What moving an item does: all or part of it, merged into an item there or not. -/
inductive MoveItem [Host] (s : WorkspaceState) (destinationId timestamp : String)
    (i : ItemRecord) : WorkspaceState → Prop where
  | merge {m : ItemRecord} (hm : mergeTarget s i destinationId = some m)
      (hv : m.version < JsNumber.maxSafeInteger)
      (hq : (m.quantity.add i.quantity).isFinite = true) :
      MoveItem s destinationId timestamp i
        ((s.putItem { m with
          quantity := m.quantity.add i.quantity
          updatedAt := timestamp
          version := m.version + 1 }).dropItem i.id)
  | mergePart {m : ItemRecord} {quantity : JsNumber} (hm : mergeTarget s i destinationId = some m)
      (hv : m.version < JsNumber.maxSafeInteger) (hvi : i.version < JsNumber.maxSafeInteger)
      (hq : (m.quantity.add quantity).isFinite = true) (hf : quantity.isFinite = true)
      (hp : quantity.pos = true)
      (hlt : i.quantity.isFinite = true → quantity.lt i.quantity = true) :
      MoveItem s destinationId timestamp i
        ((s.putItem { m with
          quantity := m.quantity.add quantity
          updatedAt := timestamp
          version := m.version + 1 }).putItem { i with
          quantity := i.quantity.sub quantity
          updatedAt := timestamp
          version := i.version + 1 })
  | relocate (hvi : i.version < JsNumber.maxSafeInteger) :
      MoveItem s destinationId timestamp i
        (s.putItem { i with
          locationId := destinationId
          order := destinationOrder s destinationId
          updatedAt := timestamp
          version := i.version + 1 })
  | split {quantity : JsNumber} {splitId : String} (hnew : findItem s splitId = none)
      (hvi : i.version < JsNumber.maxSafeInteger) (hf : quantity.isFinite = true)
      (hp : quantity.pos = true)
      (hlt : i.quantity.isFinite = true → quantity.lt i.quantity = true) :
      MoveItem s destinationId timestamp i
        ((s.putItem { i with
          quantity := i.quantity.sub quantity
          updatedAt := timestamp
          version := i.version + 1 }).addItem { i with
          createdAt := timestamp
          id := splitId
          locationId := destinationId
          order := destinationOrder s destinationId
          quantity := quantity
          updatedAt := timestamp
          version := 1 })

/-- Moving a given quantity of an item, in the four ways of `MoveItem`. -/
inductive Transfer [Host] (s : WorkspaceState) (destinationId timestamp : String)
    (i : ItemRecord) (quantity : JsNumber) : WorkspaceState → Prop where
  | merge {m : ItemRecord} (hm : mergeTarget s i destinationId = some m)
      (hv : m.version < JsNumber.maxSafeInteger)
      (hq : (m.quantity.add quantity).isFinite = true) (hall : i.quantity = quantity) :
      Transfer s destinationId timestamp i quantity
        ((s.putItem { m with
          quantity := m.quantity.add quantity
          updatedAt := timestamp
          version := m.version + 1 }).dropItem i.id)
  | mergePart {m : ItemRecord} (hm : mergeTarget s i destinationId = some m)
      (hv : m.version < JsNumber.maxSafeInteger) (hvi : i.version < JsNumber.maxSafeInteger)
      (hq : (m.quantity.add quantity).isFinite = true) (hf : quantity.isFinite = true)
      (hp : quantity.pos = true)
      (hlt : i.quantity.isFinite = true → quantity.lt i.quantity = true) :
      Transfer s destinationId timestamp i quantity
        ((s.putItem { m with
          quantity := m.quantity.add quantity
          updatedAt := timestamp
          version := m.version + 1 }).putItem { i with
          quantity := i.quantity.sub quantity
          updatedAt := timestamp
          version := i.version + 1 })
  | relocate (hvi : i.version < JsNumber.maxSafeInteger) (hall : i.quantity = quantity) :
      Transfer s destinationId timestamp i quantity
        (s.putItem { i with
          locationId := destinationId
          order := destinationOrder s destinationId
          updatedAt := timestamp
          version := i.version + 1 })
  | split {splitId : String} (hnew : findItem s splitId = none)
      (hvi : i.version < JsNumber.maxSafeInteger) (hf : quantity.isFinite = true)
      (hp : quantity.pos = true)
      (hlt : i.quantity.isFinite = true → quantity.lt i.quantity = true) :
      Transfer s destinationId timestamp i quantity
        ((s.putItem { i with
          quantity := i.quantity.sub quantity
          updatedAt := timestamp
          version := i.version + 1 }).addItem { i with
          createdAt := timestamp
          id := splitId
          locationId := destinationId
          order := destinationOrder s destinationId
          quantity := quantity
          updatedAt := timestamp
          version := 1 })

section Moves

variable [Host] {s t : WorkspaceState} {destinationId timestamp : String} {i : ItemRecord}

/-- A transfer moves the item, whatever the quantity. -/
theorem Transfer.moveItem {quantity : JsNumber}
    (h : Transfer s destinationId timestamp i quantity t) :
    MoveItem s destinationId timestamp i t := by
  cases h with
  | merge hm hv hq hall =>
      subst hall
      exact .merge hm hv hq
  | mergePart hm hv hvi hq hf hp hlt => exact .mergePart hm hv hvi hq hf hp hlt
  | relocate hvi => exact .relocate hvi
  | split hnew hvi hf hp hlt => exact .split hnew hvi hf hp hlt

/-- A record that another is merged into is active and at the destination. -/
theorem mergeTarget_some {m : ItemRecord} (h : mergeTarget s i destinationId = some m) :
    m ∈ s.items ∧ m.id ≠ i.id ∧ m.active = true ∧ m.locationId = destinationId := by
  have h1 := List.find?_some h
  simp only [Bool.and_eq_true, decide_eq_true_eq] at h1
  exact ⟨List.mem_of_find?_eq_some h, h1.1.1.1, h1.1.1.2, h1.1.2⟩

/-- An item moved whole is merged away or changes its place. -/
theorem Transfer.whole (h : Transfer s destinationId timestamp i i.quantity t) :
    (∃ m, mergeTarget s i destinationId = some m ∧
      (m.quantity.add i.quantity).isFinite = true ∧
      t = (s.putItem { m with
          quantity := m.quantity.add i.quantity
          updatedAt := timestamp
          version := m.version + 1 }).dropItem i.id) ∨
      t = s.putItem { i with
          locationId := destinationId
          order := destinationOrder s destinationId
          updatedAt := timestamp
          version := i.version + 1 } := by
  cases h with
  | merge hm hv hq hall => exact .inl ⟨_, hm, hq, rfl⟩
  | mergePart hm hv hvi hq hf hp hlt =>
      have hlt := hlt hf
      rw [JsNumber.lt_irrefl] at hlt
      cases hlt
  | relocate hvi hall => exact .inr rfl
  | split hnew hvi hf hp hlt =>
      have hlt := hlt hf
      rw [JsNumber.lt_irrefl] at hlt
      cases hlt

/-- After an item is moved whole, what is not at the destination was there before. -/
theorem Transfer.away (h : Transfer s destinationId timestamp i i.quantity t) {x : ItemRecord}
    (hx : x ∈ t.items) (haway : x.locationId ≠ destinationId) : x ∈ s.items := by
  rcases h.whole with ⟨m, hm, _, rfl⟩ | rfl
  · rcases mem_replaceKey.mp (List.mem_filter.mp hx).1 with ⟨hx, _⟩ | ⟨rfl, _⟩
    · exact hx
    · exact absurd (mergeTarget_some hm).2.2.2 haway
  · rcases mem_replaceKey.mp hx with ⟨hx, _⟩ | ⟨rfl, _⟩
    · exact hx
    · exact absurd rfl haway

/-- Moving an item changes items only. -/
theorem MoveItem.frame (h : MoveItem s destinationId timestamp i t) :
    t = { s with items := t.items } := by
  cases h <;> rfl

/-- Moving an item into an active space keeps the workspace well formed. -/
theorem MoveItem.wellFormed (hw : WellFormed s) (hi : findItem s i.id = some i)
    (hd : ActiveAt s destinationId) (h : MoveItem s destinationId timestamp i t) :
    WellFormed t := by
  obtain ⟨l, hl, _⟩ := hd
  have hdest : ∃ l ∈ s.locations, l.id = destinationId := ⟨l, findLocation_mem hl⟩
  have hfits := hw.fits (findItem_mem hi).1
  cases h with
  | merge hm hv hq =>
      have hfm := hw.fits (mergeTarget_some hm).1
      rw [dropItem_eq]
      refine (hw.putItem ?_).dropItems [i.id]
      exact ⟨hfm.stored, ⟨hq, JsNumber.pos_add hfm.quantity.2 hfits.quantity.2 hq⟩,
        version_succ hfm.version.1 hv⟩
  | mergePart hm hv hvi hq hf hp hlt =>
      have hfm := hw.fits (mergeTarget_some hm).1
      refine (hw.putItem ?_).putItem ?_
      · exact ⟨hfm.stored, ⟨hq, JsNumber.pos_add hfm.quantity.2 hp hq⟩,
          version_succ hfm.version.1 hv⟩
      · exact ⟨hfits.stored, JsNumber.pos_sub hfits.quantity.1 hf hp (hlt hfits.quantity.1),
          version_succ hfits.version.1 hvi⟩
  | relocate hvi =>
      exact hw.putItem ⟨hdest, hfits.quantity, version_succ hfits.version.1 hvi⟩
  | split hnew hvi hf hp hlt =>
      refine (hw.putItem ?_).addItems (List.nodup_singleton _) ?_ ?_
      · exact ⟨hfits.stored, JsNumber.pos_sub hfits.quantity.1 hf hp (hlt hfits.quantity.1),
          version_succ hfits.version.1 hvi⟩
      · intro j hj
        rw [List.mem_singleton.mp hj]
        refine (findItem_putItem_ne fun he => ?_).trans hnew
        have := hnew.symm.trans (he ▸ hi)
        cases this
      · intro j hj
        rw [List.mem_singleton.mp hj]
        exact ⟨hdest, ⟨hf, hp⟩, (by decide : (1 : Int) ≤ 1 ∧ JsNumber.safeInt 1 = true)⟩

end Moves

/-- Items moved one after another. -/
inductive MoveItems [Host] (destinationId timestamp : String) :
    WorkspaceState → List String → WorkspaceState → Prop where
  | nil (s : WorkspaceState) : MoveItems destinationId timestamp s [] s
  | cons {s t u : WorkspaceState} {i : ItemRecord} {ids : List String}
      (hi : findItem s i.id = some i) (hact : i.active = true)
      (haway : i.locationId ≠ destinationId) (h : MoveItem s destinationId timestamp i t)
      (rest : MoveItems destinationId timestamp t ids u) :
      MoveItems destinationId timestamp s (i.id :: ids) u

/-- Items moved whole, one after another. -/
inductive Transfers [Host] (destinationId timestamp : String) :
    WorkspaceState → List ItemRecord → WorkspaceState → Prop where
  | nil (s : WorkspaceState) : Transfers destinationId timestamp s [] s
  | cons {s t u : WorkspaceState} {i : ItemRecord} {is : List ItemRecord}
      (hi : findItem s i.id = some i) (hact : i.active = true)
      (haway : i.locationId ≠ destinationId)
      (h : Transfer s destinationId timestamp i i.quantity t)
      (rest : Transfers destinationId timestamp t is u) :
      Transfers destinationId timestamp s (i :: is) u

/-- So for a list of items. -/
theorem Transfers.moveItems [Host] {destinationId timestamp : String} {s t : WorkspaceState}
    {is : List ItemRecord} (h : Transfers destinationId timestamp s is t) :
    MoveItems destinationId timestamp s (is.map ItemRecord.id) t := by
  induction h with
  | nil s => exact .nil s
  | cons hi hact haway h _ ih => exact .cons hi hact haway h.moveItem ih

/-- The items moved are those of the state the moves began in. -/
theorem Transfers.mem [Host] {destinationId timestamp : String} {s t : WorkspaceState}
    {is : List ItemRecord} (h : Transfers destinationId timestamp s is t) {i : ItemRecord}
    (hin : i ∈ is) : i ∈ s.items ∧ i.active = true ∧ i.locationId ≠ destinationId := by
  induction h with
  | nil s => cases hin
  | cons hi hact haway h _ ih =>
      rcases List.mem_cons.mp hin with rfl | hin
      · exact ⟨(findItem_mem hi).1, hact, haway⟩
      · obtain ⟨hmem, hact', haway'⟩ := ih hin
        exact ⟨h.away hmem haway', hact', haway'⟩

/-- Moving items changes items only. -/
theorem MoveItems.frame [Host] {destinationId timestamp : String} {s t : WorkspaceState}
    {ids : List String} (h : MoveItems destinationId timestamp s ids t) :
    t = { s with items := t.items } := by
  induction h with
  | nil => rfl
  | cons _ _ _ h _ ih =>
      rw [ih, h.frame]

/-- An active plan about to complete one of its steps. -/
structure Completing (s : WorkspaceState) (plan : MovePlan) (step : PlanStep) : Prop where
  found : findPlan s plan.id = some plan
  active : plan.status = .active
  one : ∀ q ∈ s.plans, q.status = .active → q.id = plan.id
  stepFound : findKey PlanStep.id step.id plan.steps = some step
  undone : step.done = false
  earlier : ∀ st ∈ plan.steps.takeWhile (fun st => st.id ≠ step.id), st.done = true
  area : planSelectionIssue s.household plan.selection = none
  selection : planSelectionStepIssue s.household plan.selection step = none

/-- The plan with one of its steps completed. -/
def MovePlan.complete (plan : MovePlan) (step : PlanStep) (timestamp : String) : MovePlan :=
  let steps := completeStep plan.steps step timestamp
  { plan with
    steps
    status := if steps.all (·.done) then .completed else plan.status }

/-- **Every change a command can make**, with what has been checked before it is made. -/
inductive Effect [Host] (s : WorkspaceState) (timestamp : String) : WorkspaceState → Prop where
  | rename (name : String) (hname : blank name = false) : Effect s timestamp (s.rename name)
  | createLocation {l : Location} {ids : List String} (hid : findLocation s l.id = none)
      (hcode : ∀ m ∈ s.locations, m.active = true → codeKey m.code ≠ codeKey l.code)
      (hparent : ∀ p, l.parentId = some p → Entered s ids p) :
      Effect s timestamp (((s.addLocation l).discardPlans
        (stale s [] l.parentId.toList)).setProgress ids timestamp)
  | changeLocation {l l' : Location} {ids changed : List String}
      (hl : findLocation s l.id = some l) (hact : l.active = true) (hid : l'.id = l.id)
      (harch : l'.archivedAt = l.archivedAt) (hcap : l'.captureStatus = l.captureStatus)
      (hparent : l'.parentId = l.parentId ∨
        (changed = l.id :: l'.parentId.toList ∧ ∀ p, l'.parentId = some p →
          Entered s ids p ∧ ¬ ReflTransGen (Under s) p l.id))
      (hcode : codeKey l'.code = codeKey l.code ∨ ∀ m ∈ s.locations, m.id ≠ l.id →
        m.active = true → codeKey m.code ≠ codeKey l'.code) :
      Effect s timestamp (((s.putLocation l').discardPlans
        (stale s [] changed)).setProgress ids timestamp)
  | archive {l : Location} (hl : findLocation s l.id = some l) (hact : l.active = true)
      (hinside : ∀ m ∈ s.locations, TransGen (Under s) m.id l.id → m.id ≠ l.id →
        m.active = false)
      (hitems : ∀ i ∈ s.items, i.locationId = l.id → i.active = false) :
      Effect s timestamp ((s.putLocation
        { l with archivedAt := some timestamp, updatedAt := timestamp }).discardPlans
        (stale s [] (l.id :: l.parentId.toList)))
  | restore {l : Location} {ids : List String} (hl : findLocation s l.id = some l)
      (hcode : ∀ m ∈ s.locations, m.id ≠ l.id → m.active = true →
        codeKey m.code ≠ codeKey l.code)
      (hparent : ∀ p, l.parentId = some p → Entered s ids p) :
      Effect s timestamp (((s.putLocation
        { l with archivedAt := none, updatedAt := timestamp }).discardPlans
        (stale s [] (l.id :: l.parentId.toList))).setProgress ids timestamp)
  | deleteLocation {l : Location} {locationIds itemIds : List String}
      (hl : findLocation s l.id = some l)
      (hinside : ∀ m ∈ s.locations, m.id ∈ locationIds ↔
        ReflTransGen (Under s) m.id l.id)
      (hitems : ∀ i ∈ s.items, i.id ∈ itemIds ↔ i.locationId ∈ locationIds) :
      Effect s timestamp (((s.dropItems itemIds).dropLocations locationIds).discardPlans
        (stale s itemIds locationIds))
  | emptyLocation {l : Location} {itemIds : List String} (hl : findLocation s l.id = some l)
      (hact : l.active = true)
      (hchild : ∀ m ∈ s.locations, m.parentId = some l.id → m.active = false)
      (hitems : ∀ i ∈ s.items, i.id ∈ itemIds ↔ i.locationId = l.id ∧ i.active = true) :
      Effect s timestamp (((s.dropItems itemIds).putLocation
        { l with captureStatus := .knownEmpty, updatedAt := timestamp }).discardPlans
        (stale s itemIds [l.id]))
  | markCapture {l : Location} {status : CaptureStatus} (hl : findLocation s l.id = some l)
      (hact : l.active = true)
      (hempty : status = .knownEmpty →
        (∀ m ∈ s.locations, m.parentId = some l.id → m.active = false) ∧
        ∀ i ∈ s.items, i.locationId = l.id → i.active = false) :
      Effect s timestamp ((s.putLocation
        { l with captureStatus := status, updatedAt := timestamp }).discardPlans
        (stale s [] [l.id]))
  | createItems {is : List ItemRecord} {ids changed : List String}
      (hn : (is.map ItemRecord.id).Nodup) (hnew : ∀ i ∈ is, findItem s i.id = none)
      (hfits : ∀ i ∈ is, ItemFits s i) (hchanged : ∀ i ∈ is, i.locationId ∈ changed)
      (hentered : ∀ i ∈ is, Entered s ids i.locationId) :
      Effect s timestamp (((s.addItems is).discardPlans
        (stale s [] changed)).setProgress ids timestamp)
  | changeItems {is : List ItemRecord} {ids itemIds changed : List String}
      (hn : (is.map ItemRecord.id).Nodup)
      (hold : ∀ i' ∈ is, ∃ i, findItem s i'.id = some i ∧ i'.locationId = i.locationId ∧
        i'.archivedAt = i.archivedAt ∧ (i'.quantity ≠ i.quantity → i'.id ∈ itemIds))
      (hfits : ∀ i' ∈ is, ∀ i, findItem s i'.id = some i → ItemFits s i → ItemFits s i') :
      Effect s timestamp (((s.putItems is).discardPlans
        (stale s itemIds changed)).setProgress ids timestamp)
  | deleteItem {i : ItemRecord} (hi : findItem s i.id = some i) :
      Effect s timestamp ((s.dropItem i.id).discardPlans (stale s [i.id] [i.locationId]))
  | moveItems {t : WorkspaceState} {destinationId : String} {moved ids changed : List String}
      (hmoves : MoveItems destinationId timestamp s moved t)
      (hentered : Entered s ids destinationId) (hdest : destinationId ∈ changed)
      (hsource : ∀ i ∈ s.items, i.id ∈ moved → i.locationId ∈ changed) :
      Effect s timestamp ((t.discardPlans (stale s moved changed)).setProgress ids timestamp)
  | createPlan {p : MovePlan} (hid : findPlan s p.id = none) (hactive : p.status = .active)
      (hsteps : ∃ step ∈ p.steps, step.done = false)
      (hok : ∀ step ∈ p.steps, step.done = false ∧ StepOk s p step) :
      Effect s timestamp ((s.discardPlans
        ((s.plans.filter fun q => q.status = .active).map MovePlan.id)).addPlan p)
  | planStatus {p : MovePlan} {status : PlanStatus} (hp : findPlan s p.id = some p)
      (hne : p.status ≠ status)
      (hcomplete : status = .completed → ∀ step ∈ p.steps, step.done = true)
      (hactive : status = .active →
        (∀ q ∈ s.plans, q.id ≠ p.id → q.status ≠ .active) ∧
        (∃ step ∈ p.steps, step.done = false) ∧
        ∀ step ∈ p.steps, step.done = false → StepOk s p step) :
      Effect s timestamp (s.putPlan { p with status })
  | completeItem {t : WorkspaceState} {plan : MovePlan} {step : PlanStep} {i : ItemRecord}
      {ids : List String} (hc : Completing s plan step) (hi : findItem s i.id = some i)
      (htype : step.type = .item) (hitem : step.itemId = some i.id) (hact : i.active = true)
      (hsource : i.locationId = step.sourceId) (hquantity : step.quantity = some i.quantity)
      (hs : ActiveAt s step.sourceId) (haway : i.locationId ≠ step.destinationId)
      (hmove : MoveItem s step.destinationId timestamp i t)
      (hentered : Entered s ids step.destinationId) :
      Effect s timestamp ((t.setProgress ids timestamp).putPlan (plan.complete step timestamp))
  | completeContainer {plan : MovePlan} {step : PlanStep} {l : Location} {ids : List String}
      (hc : Completing s plan step) (hl : findLocation s l.id = some l) (hact : l.active = true)
      (htype : step.type = .location) (hlocation : step.locationId = some l.id)
      (hsource : l.parentId = some step.sourceId)
      (houtside : ¬ ReflTransGen (Under s) step.destinationId l.id)
      (hs : ActiveAt s step.sourceId) (hentered : Entered s ids step.destinationId) :
      Effect s timestamp (((s.putLocation
        { l with parentId := some step.destinationId, updatedAt := timestamp }).setProgress ids
        timestamp).putPlan (plan.complete step timestamp))

end Stowplan
