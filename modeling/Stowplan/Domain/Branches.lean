/-
  File:      Stowplan/Domain/Branches.lean
  Subject:   EVERY BRANCH OF `normalPatches` HAS AN EFFECT, and its patches describe it.

  One theorem for each command, each of the same form: where the branch returns a change on a
  state whose items and locations have different identifiers, the change's patches yield a state
  that `Effect` lists, and describe it where the plans differ too and no location is inside itself.
  The proofs read the checks off the branch and put the groups of patches of Edits.lean together.
-/
import Stowplan.Domain.Effects
import Stowplan.Domain.Records

namespace Stowplan

open Keyed Forest Relation

/-! ## 1. Common parts -/

/-- What the values before of a change rest on: the plans differ, and no location is inside
    itself. -/
structure Tidy (s : WorkspaceState) : Prop where
  plans : (s.plans.map MovePlan.id).Nodup
  acyclic : Acyclic (Under s)

theorem WellFormed.tidy [Host] {s : WorkspaceState} (hw : WellFormed s) : Tidy s :=
  ⟨hw.unique.plans, hw.acyclic⟩

section Parts

variable {c : Prop} {s t : WorkspaceState}

@[simp] theorem stale_nil : stale s [] [] = [] := by
  have h : ∀ p ∈ s.plans, planAffected s [] [] p = false := by
    intro p _
    have hstep : ∀ step, stepAffected [] [] step = false := by
      intro step
      simp [stepAffected]
    cases hsel : p.selection <;>
      simp [planAffected, selectionAffected, hstep, hsel]
  unfold stale
  rw [List.filter_eq_nil_iff.mpr fun p hp => by simp [h p hp]]
  rfl

@[simp] theorem discardPlans_nil : s.discardPlans [] = s := by
  simp [WorkspaceState.discardPlans]

@[simp] theorem setProgress_nil {timestamp : String} : s.setProgress [] timestamp = s := by
  simp [WorkspaceState.setProgress]

/-- The invalidation patches computed before a change apply to a state with the same plans. -/
theorem yields_stale (hr : UniqueRecords t) (hp : t.plans = s.plans)
    (itemIds locationIds : List String) :
    Yields (Tidy s) t (planInvalidationPatches s itemIds locationIds)
      (t.discardPlans (stale s itemIds locationIds)) := by
  refine .of_plans hr (fun p hp => ?_) ⟨rfl, rfl⟩ fun hs => ?_
  · obtain ⟨q, -, rfl⟩ := List.mem_map.mp hp
    rfl
  · refine describes_discards (nodup_filter hs.plans _) fun q hq => ?_
    have := findKey_of_mem hs.plans (List.mem_filter.mp hq).1
    unfold findPlan
    rw [hp]
    exact this

/-- The same where a branch asks for them on a condition only. -/
theorem yields_stale_if (hr : UniqueRecords t) (hp : t.plans = s.plans) {b : Bool}
    (itemIds locationIds : List String) :
    Yields (Tidy s) t (if b then planInvalidationPatches s itemIds locationIds else [])
      (t.discardPlans (stale s (if b then itemIds else []) (if b then locationIds else []))) := by
  cases b with
  | true => exact yields_stale hr hp _ _
  | false =>
      simp only [Bool.false_eq_true, if_false, stale_nil, discardPlans_nil]
      exact .of_describes hr (.nil t)

/-- A space whose contents change is in progress afterwards, if it was complete or empty. -/
theorem Progress.entered {timestamp : String} {covers : List String} {patches : List FieldPatch}
    {ls : List Location} (hp : Progress s timestamp covers patches ls) {id : String}
    (hid : id ∈ covers) : Entered s (ls.map Location.id) id := by
  obtain ⟨l, hl, ha, hc⟩ := hp.covers id hid
  exact ⟨l, hl, ha, fun h => List.mem_map_of_mem (hc h)⟩

/-- Progress patches computed before a change yield the spaces in progress where the locations are
    as they were. -/
theorem Progress.yields_same {timestamp : String} {covers : List String}
    {patches : List FieldPatch} {ls : List Location}
    (hp : Progress s timestamp covers patches ls) (hr : UniqueRecords t)
    (hl : t.locations = s.locations) :
    Yields c t patches (t.setProgress (ls.map Location.id) timestamp) := by
  have hfound : ∀ l ∈ ls, findLocation t l.id = some l := by
    intro l hm
    unfold findLocation
    rw [hl]
    exact hp.found l hm
  rw [hp.patches_eq]
  exact .progress hr hp.nodup (fun l hm => ⟨l, hfound l hm⟩)
    fun _ l hm => ⟨l, hfound l hm, rfl, rfl⟩

/-- They do where one location was replaced, and describe that where it is none of them. -/
theorem Progress.yields_put {timestamp : String} {covers : List String}
    {patches : List FieldPatch} {ls : List Location}
    (hp : Progress s timestamp covers patches ls) {m : Location} (hr : UniqueRecords t)
    (hne : c → m.id ∉ covers) (hl : t.locations = (s.putLocation m).locations) :
    Yields c t patches (t.setProgress (ls.map Location.id) timestamp) := by
  have hfind : ∀ l ∈ ls, findLocation t l.id = if l.id = m.id then some m else some l := by
    intro l hm
    unfold findLocation
    rw [hl]
    show findKey _ _ (replaceKey _ _ _) = _
    rw [findKey_replaceKey]
    show (if l.id = m.id then (findLocation s l.id).map _ else findLocation s l.id) = _
    rw [hp.found l hm]
    rfl
  rw [hp.patches_eq]
  refine .progress hr hp.nodup (fun l hm => ?_) fun hc l hm => ⟨l, ?_, rfl, rfl⟩
  · rw [hfind l hm]
    split
    · exact ⟨m, rfl⟩
    · exact ⟨l, rfl⟩
  · rw [hfind l hm, if_neg (show ¬ l.id = m.id from fun e => hne hc (e ▸ hp.among l hm))]

/-- Fields of a location set: the location put back with them. -/
theorem describes_location_put (hr : UniqueRecords s) {l : Location}
    (hl : findLocation s l.id = some l) (es : List LocationEntry) (hp : Apart es) :
    Describes s (es.map fun e => patch .location l.id e.key (e.here l).value e.value)
      (s.putLocation (putAll es l)) := by
  have h := describes_location_entries hl (fun _ _ => rfl) hp
  rwa [modifyLocation_eq_putLocation hr hl (idOf_putAll es l)] at h

/-- The patches of some entries describe the item with those entries. -/
theorem describes_item_put (hr : UniqueRecords s) {i : ItemRecord} (hi : findItem s i.id = some i)
    (es : List ItemEntry) (hp : Apart es) :
    Describes s (es.map fun e => patch .item i.id e.key (e.here i).value e.value)
      (s.putItem (putAll es i)) := by
  have h := describes_item_entries hi (fun _ _ => rfl) hp
  rwa [modifyItem_eq_putItem hr hi (idOf_putAll es i)] at h

end Parts

section Branches

variable [Host] {s : WorkspaceState} {env : CommandEnvelope} {change : Change}

/-- The change's patches yield one of the effects a command can have. -/
def HasEffect (s : WorkspaceState) (env : CommandEnvelope) (change : Change) : Prop :=
  ∃ t, Yields (Tidy s) s change.patches t ∧ Effect s env.timestamp t

/-! ## 2. Workspace and locations -/

/-- Each command has the effect that its patches describe: here the name. -/
theorem workspaceRename_effect (hr : UniqueRecords s) {name : String}
    (h : workspaceRename s name = .ok change) :
    HasEffect s env change := by
  simp only [workspaceRename, refuseNoChanges, result_bind_ok, refuse_ok, result_pure_ok,
    beq_eq_false_iff_ne, ne_eq, exists_const] at h
  obtain ⟨hne, _, rfl⟩ := h
  refine ⟨s.rename (trim name), .of_describes hr (.single (.rename _)), .rename _ ?_⟩
  rw [blank_trim]
  simpa [blank] using hne

/-- A new space, below a parent that is active. -/
theorem locationCreate_effect (hr : UniqueRecords s) {l : Location}
    (h : locationCreate s env l = .ok change) : HasEffect s env change := by
  simp only [locationCreate, result_bind_ok, result_pure_ok] at h
  obtain ⟨_, hcheck, _, _, progress, hprogress, rfl⟩ := h
  have hc := validateLocation_ok hcheck
  have hnew := hc.fresh rfl
  have hcode : ∀ m ∈ s.locations, m.active = true → codeKey m.code ≠ codeKey l.code :=
    fun m hm ha => hc.unused m hm (by simp) ha
  cases hp : l.parentId with
  | none =>
      simp only [hp, isSet, Bool.false_eq_true, if_false, Except.ok.injEq] at hprogress
      subst hprogress
      refine ⟨((s.addLocation l).discardPlans (stale s [] l.parentId.toList)).setProgress []
        env.timestamp, ?_, .createLocation hnew hcode (by simp [hp])⟩
      simp only [hp, isSet, Bool.false_eq_true, if_false, Option.toList_none, stale_nil,
        discardPlans_nil, setProgress_nil, List.append_nil, List.nil_append]
      exact .of_describes hr (.single (.addLocation l hnew))
  | some p =>
      obtain ⟨hblank, _, _⟩ := hc.parent p hp
      have hset : isSet (some p) = true := isSet_some (ne_empty_of_not_blank hblank)
      simp only [hp, hset, if_true, Option.getD_some] at hprogress
      obtain ⟨ls, hls⟩ := captureProgressPatches_ok hprogress
      refine ⟨((s.addLocation l).discardPlans (stale s [] l.parentId.toList)).setProgress
        (ls.map Location.id) env.timestamp, ?_, .createLocation hnew hcode ?_⟩
      · simp only [hp, hset, if_true, Option.getD_some, Option.toList_some]
        have hd := (yields_stale hr rfl [] [p]).append (.of_describes ⟨hr.items, hr.locations⟩
          (.single (.addLocation l hnew)))
        have hfound : ∀ m ∈ ls, findLocation (s.addLocation l) m.id = some m := by
          intro m hm
          have hfound := hls.found m hm
          show findKey _ _ (s.locations ++ [l]) = _
          rw [findKey_append]
          unfold findLocation at hfound
          rw [hfound]
          rfl
        rw [hls.patches_eq]
        exact hd.append (.progress hd.unique hls.nodup (fun m hm => ⟨m, hfound m hm⟩)
          fun _ m hm => ⟨m, hfound m hm, rfl, rfl⟩)
      · intro q hq
        rw [hp] at hq
        cases hq
        exact hls.entered List.mem_cons_self

omit [Host] in

/-- Only allowed keys are changed. -/
theorem assertAllowedChanges_ok {keys allowed : List String} {action : String} {u : Unit} :
    assertAllowedChanges keys allowed action = .ok u ↔ ∀ k ∈ keys, k ∈ allowed := by
  unfold assertAllowedChanges
  cases h : keys.find? fun key => !allowed.contains key with
  | some k =>
      have hk := List.find?_some h
      simp only [reduceCtorEq, false_iff, not_forall]
      exact ⟨k, List.mem_of_find?_eq_some h, by simpa using hk⟩
  | none => simpa using List.find?_eq_none.mp h

omit [Host] in
/-- The parents a location leaves and enters are active, those that were known empty are set in
    progress. -/
theorem parentProgress_ok {source destination : Option String} {reopen : Bool}
    {patches : List FieldPatch}
    (h : parentProgress s env source destination reopen = .ok patches) :
    ∃ covers ls, Progress s env.timestamp covers patches ls ∧
      (∀ id ∈ covers, source = some id ∨ destination = some id) ∧
      ∀ p, destination = some p → p ≠ "" → p ∈ covers := by
  unfold parentProgress at h
  split at h
  · obtain ⟨ls, hls⟩ := bulkMoveProgress_ok h
    refine ⟨_, ls, hls, fun id hid => ?_, fun p hp _ => ?_⟩
    · rcases (by simpa using hid : some id = source ∨ some id = destination) with h | h
      · exact .inl h.symm
      · exact .inr h.symm
    · simp [hp]
  · split at h
    · rename_i hset
      obtain ⟨d, rfl, hd⟩ := isSet_iff.mp hset
      obtain ⟨ls, hls⟩ := captureProgressPatches_ok h
      exact ⟨_, ls, hls, by simp, by simp⟩
    · rename_i hset
      cases h
      refine ⟨[], [], Progress.nil _ _, by simp, fun p hp hne => ?_⟩
      rw [hp] at hset
      exact absurd (isSet_some hne) hset

omit [Host] in
@[simp] theorem key_normalizedLocationEntry (n : Location) (e : LocationEntry) :
    (normalizedLocationEntry n e).key = e.key := by
  cases e <;> rfl

omit [Host] in
/-- Storing the code and the name otherwise does not change the parent. -/
theorem parentId_putAll_normalized (n : Location) (es : List LocationEntry) {a b : Location}
    (h : a.parentId = b.parentId) :
    (putAll (es.map (normalizedLocationEntry n)) a).parentId = (putAll es b).parentId := by
  induction es generalizing a b with
  | nil => exact h
  | cons e es ih =>
      refine ih (a := (normalizedLocationEntry n e).put a) (b := e.put b) ?_
      cases e <;> first | exact h | rfl

omit [Host] in

/-- The code of a location changes only to the one that was checked. -/
theorem code_putAll_normalized (n : Location) (es : List LocationEntry) (a : Location) :
    (putAll (es.map (normalizedLocationEntry n)) a).code = n.code ∨
      (putAll (es.map (normalizedLocationEntry n)) a).code = a.code := by
  induction es generalizing a with
  | nil => exact .inr rfl
  | cons e es ih =>
      rcases ih ((normalizedLocationEntry n e).put a) with h | h
      · exact .inl h
      · cases e <;> first | exact .inr h | exact .inl h

omit [Host] in
/-- Setting other fields leaves those that have commands of their own. -/
theorem location_putAll_keeps {es : List LocationEntry}
    (h : ∀ e ∈ es, e.key ∈ locationChangeKeys) (l : Location) :
    (putAll es l).archivedAt = l.archivedAt ∧ (putAll es l).captureStatus = l.captureStatus := by
  constructor
  · refine putAll_keeps (f := Location.archivedAt) (fun e he a => ?_) l
    have := h e he
    cases e <;> first | rfl | simp [LocationEntry.key, locationChangeKeys] at this
  · refine putAll_keeps (f := Location.captureStatus) (fun e he a => ?_) l
    have := h e he
    cases e <;> first | rfl | simp [LocationEntry.key, locationChangeKeys] at this

omit [Host] in
/-- Only the changed fields matter. -/
theorem putAll_changed_location {l : Location} {es : List LocationEntry}
    (hn : (es.map LocationEntry.key).Nodup) :
    putAll (es.filter fun e => !equal (e.here l).value e.value) l = putAll es l :=
  putAll_filter (apart_location hn) (fun _ _ => rfl) fun e _ he =>
    FieldEntry.eq_of_equal e l ((Bool.not_eq_false' _).mp he)

omit [Host] in
/-- The changed fields of a location, and its timestamp. -/
theorem describes_location_changes (hr : UniqueRecords s) {l : Location}
    (hl : findLocation s l.id = some l) {es : List LocationEntry}
    (hn : (es.map LocationEntry.key).Nodup) (hkeys : ∀ e ∈ es, e.key ∈ locationChangeKeys)
    (timestamp : String) :
    Describes s
      (((es.filter fun e => !equal (e.here l).value e.value).map fun e =>
        patch .location l.id e.key (e.here l).value e.value) ++
        [patch .location l.id "updatedAt" (encode l.updatedAt) (encode timestamp)])
      (s.putLocation { putAll es l with updatedAt := timestamp }) := by
  set ce := es.filter fun e => !equal (e.here l).value e.value with hce
  have hapart : Apart (ce ++ [LocationEntry.updatedAt timestamp]) := by
    refine apart_location ?_
    rw [List.map_append, List.nodup_append]
    refine ⟨hn.sublist (List.filter_sublist.map _), by simp, ?_⟩
    intro k hk k' hk' he
    rw [List.map_singleton, List.mem_singleton] at hk'
    obtain ⟨e, hmem, rfl⟩ := List.mem_map.mp hk
    have := hkeys e (List.mem_filter.mp hmem).1
    rw [he, hk'] at this
    simp [LocationEntry.key, locationChangeKeys] at this
  have hall : putAll (ce ++ [LocationEntry.updatedAt timestamp]) l =
      { putAll es l with updatedAt := timestamp } := by
    rw [← putAll_changed_location hn]
    unfold putAll
    rw [List.foldl_append]
    rfl
  have h := describes_location_put hr hl _ hapart
  rw [hall, List.map_append] at h
  exact h

/-- The details of a space, whose parent is not below it. -/
theorem locationUpdate_effect (hr : UniqueRecords s) {id : String} {changes : LocationChanges}
    {reopen : Bool} (h : locationUpdate s env id changes reopen = .ok change) :
    HasEffect s env change := by
  simp only [locationUpdate, result_bind_ok, requireActiveLocation_ok, assertAllowedChanges_ok,
    result_pure_ok] at h
  obtain ⟨l, ⟨hl, hact⟩, _, hkeys, _, _, _, hcheck, _, _, progress, hprogress, _, _, rfl⟩ := h
  rw [← (findLocation_mem hl).2] at hl
  have hc := validateLocation_ok hcheck
  set next := changedLocation l changes env.timestamp with hnext
  set es := changes.entries.map (normalizedLocationEntry next) with hes
  have hekeys : ∀ e ∈ es, e.key ∈ locationChangeKeys := by
    intro e he
    obtain ⟨e', he', rfl⟩ := List.mem_map.mp he
    rw [key_normalizedLocationEntry]
    exact hkeys _ (List.mem_map_of_mem he')
  have hnodup : (es.map LocationEntry.key).Nodup := by
    have : es.map LocationEntry.key = changes.entries.map LocationEntry.key := by
      rw [hes, List.map_map]
      exact List.map_congr_left fun e _ => key_normalizedLocationEntry next e
    rw [this]
    exact changes.nodup
  have hdesc : Yields (Tidy s) s _ _ :=
    .of_describes hr (describes_location_changes hr hl hnodup hekeys env.timestamp)
  set l' : Location := { putAll es l with updatedAt := env.timestamp } with hl'
  have hid : l'.id = l.id := idOf_putAll es l
  have hpar : l'.parentId = next.parentId := parentId_putAll_normalized next changes.entries rfl
  obtain ⟨harch, hcap⟩ := location_putAll_keeps hekeys l
  have hcode : codeKey l'.code = codeKey l.code ∨ ∀ m ∈ s.locations, m.id ≠ l.id →
      m.active = true → codeKey m.code ≠ codeKey l'.code := by
    rcases code_putAll_normalized next changes.entries l with hco | hco
    · right
      intro m hm hne ha
      rw [show l'.code = next.code from hco]
      exact hc.unused m hm (fun e => hne (Option.some.inj e)) ha
    · exact .inl (congrArg codeKey (show l'.code = l.code from hco))
  set c := ["conditions", "dimensions", "kind", "parentId", "tags"].any fun field =>
    (es.filter fun e => !equal (e.here l).value e.value).any fun e => e.key == field with hcdef
  set changed := if c = true then [some l.id, next.parentId].filterMap (·) else []
  have hstale : Yields (Tidy s) (s.putLocation l')
      (if c then planInvalidationPatches s [] ([some l.id, next.parentId].filterMap (·)) else [])
      ((s.putLocation l').discardPlans (stale s [] changed)) := by
    have := yields_stale_if (s := s) (t := s.putLocation l') (b := c) hdesc.unique rfl []
      ([some l.id, next.parentId].filterMap (·))
    rwa [ite_self] at this
  by_cases hm : next.parentId = l.parentId
  · -- the location stays where it is
    rw [if_neg (by simpa using hm)] at hprogress
    cases hprogress
    refine ⟨((s.putLocation l').discardPlans (stale s [] changed)).setProgress [] env.timestamp,
      ?_, .changeLocation hl hact hid harch hcap (.inl (hpar.trans hm)) hcode⟩
    simp only [ite_self, setProgress_nil, List.append_nil]
    exact hdesc.append hstale
  · rw [if_pos (by simpa using hm)] at hprogress
    obtain ⟨covers, ls, hls, hamong, hdest⟩ := parentProgress_ok hprogress
    have hparent : ∀ p, l'.parentId = some p →
        Entered s (ls.map Location.id) p ∧ ¬ ReflTransGen (Under s) p l.id := by
      intro p hp
      rw [hpar] at hp
      obtain ⟨hblank, hself, m, hfm, _⟩ := hc.parent p hp
      refine ⟨hls.entered (hdest p hp (ne_empty_of_not_blank hblank)), fun hpath => ?_⟩
      have hset : isSet (some l.id) = true := by
        by_contra hset
        have hnone := hc.fresh (Bool.eq_false_iff.mpr hset)
        rw [show next.id = l.id from idOf_putAll _ l, hl] at hnone
        cases hnone
      rcases reflTransGen_iff_eq_or_transGen.mp hpath with he | ht
      · exact hself (he.symm.trans (idOf_putAll _ l).symm)
      · obtain ⟨hmem, hmid⟩ := findLocation_mem hfm
        refine hc.outside p hp hset m (hr.mem_descendantsOf.mpr ⟨hmem, hmid ▸ ht, ?_⟩) hmid
        exact fun he => hself (hmid.symm.trans (he.trans (idOf_putAll _ l).symm))
    have hctrue : c = true := by
      by_contra hfalse
      refine hm (hpar.symm.trans ?_)
      show (putAll es l).parentId = l.parentId
      rw [← putAll_changed_location hnodup]
      refine putAll_keeps (f := Location.parentId) (fun e he a => ?_) l
      cases e <;> first | rfl | skip
      exact absurd (List.any_eq_true.mpr ⟨"parentId", by simp,
        List.any_eq_true.mpr ⟨_, he, rfl⟩⟩) hfalse
    have hchanged : changed = l.id :: l'.parentId.toList := by
      rw [hpar]
      simp only [changed, hctrue, if_true]
      cases next.parentId <;> rfl
    refine ⟨((s.putLocation l').discardPlans (stale s [] changed)).setProgress (ls.map Location.id)
      env.timestamp, ?_, .changeLocation hl hact hid harch hcap (.inr ⟨hchanged, hparent⟩) hcode⟩
    simp only [ne_eq, hm, not_false_eq_true, if_true]
    have hd := hdesc.append hstale
    refine hd.append (hls.yields_put (m := l') hd.unique (fun hs => ?_) rfl)
    rw [hid]
    intro hin
    rcases hamong l.id hin with h | h
    · exact hs.acyclic l.id (.single ⟨l, (findLocation_mem hl).1, rfl, h⟩)
    · exact (hparent l.id (hpar.trans h)).2 .refl

/-- The parent and the order of a space, which does not go below itself. -/
theorem locationMove_effect (hr : UniqueRecords s) {id : String} {parentId : Option String}
    {order : Option JsNumber} {reopen : Bool}
    (h : locationMove s env id parentId order reopen = .ok change) : HasEffect s env change := by
  simp only [locationMove, result_bind_ok, requireActiveLocation_ok, refuse_ok, checkIf_ok,
    result_pure_ok] at h
  obtain ⟨l, ⟨hl, hact⟩, _, hblank, _, -, _, hself, _, hparent, _, -, _, -, progress, hprogress,
    rfl⟩ := h
  rw [← (findLocation_mem hl).2] at hl
  have hlm := (findLocation_mem hl).1
  let es := LocationEntry.updatedAt env.timestamp :: (order.map LocationEntry.order).toList
  let l' : Location :=
    { l with parentId, updatedAt := env.timestamp, order := order.getD l.order }
  have hapart : Apart es := by
    refine apart_location ?_
    cases order <;> simp [es, LocationEntry.key]
  by_cases hm : parentId = l.parentId
  · -- the location is put elsewhere among its siblings
    rw [if_neg (by simpa using hm)] at hprogress
    cases hprogress
    refine ⟨((s.putLocation l').discardPlans (stale s [] [])).setProgress [] env.timestamp, ?_,
      .changeLocation hl hact rfl rfl rfl (.inl hm) (.inl rfl)⟩
    have hput : putAll es l = l' := by
      subst hm
      cases order <;> rfl
    have hd : Yields (Tidy s) s _ _ := .of_describes hr (describes_location_put hr hl es hapart)
    rw [hput] at hd
    simp only [ne_eq, hm, not_true_eq_false, if_false, List.nil_append, stale_nil,
      discardPlans_nil, setProgress_nil, List.append_nil]
    cases order <;> exact hd
  · rw [if_pos (by simpa using hm)] at hprogress
    obtain ⟨covers, ls, hls, hamong, hdest⟩ := parentProgress_ok hprogress
    have hnew : ∀ p, parentId = some p →
        Entered s (ls.map Location.id) p ∧ ¬ ReflTransGen (Under s) p l.id := by
      intro p hp
      subst hp
      have hset : isSet (some p) = true := isSet_some (ne_empty_of_not_blank hblank)
      obtain ⟨d, ⟨hd, _⟩, hin⟩ := hparent hset
      obtain ⟨hdm, hdid⟩ := findLocation_mem hd
      refine ⟨hls.entered (hdest p rfl (ne_empty_of_not_blank hblank)), fun hpath => ?_⟩
      rcases reflTransGen_iff_eq_or_transGen.mp hpath with he | ht
      · simp [he] at hself
      · simp only [List.any_eq_false, decide_eq_true_eq] at hin
        refine hin d (hr.mem_descendantsOf.mpr ⟨hdm, hdid ▸ ht, fun he => ?_⟩) (congrArg some hdid)
        simp [he.symm.trans hdid] at hself
    have hchanged : [some l.id, parentId].filterMap (·) = l.id :: parentId.toList := by
      cases parentId <;> rfl
    let l₁ : Location := { l with parentId }
    let t := (s.putLocation l₁).discardPlans (stale s [] (l.id :: parentId.toList))
    have hone : Yields (Tidy s) s [patch .location l.id "parentId" (encode l.parentId)
        (encode parentId)] (s.putLocation l₁) := by
      have h : Yields (Tidy s) s _ _ :=
        .of_describes hr (.single (.location (.parentId parentId) hl))
      rwa [modifyLocation_eq_putLocation hr hl rfl] at h
    have hfirst : Yields (Tidy s) s (patch .location l.id "parentId" (encode l.parentId)
        (encode parentId) :: planInvalidationPatches s [] (l.id :: parentId.toList)) t :=
      hone.append (yields_stale (s := s) (t := s.putLocation l₁) hone.unique rfl _ _)
    have hfound : findLocation t l₁.id = some l₁ :=
      findLocation_putLocation (m := l₁) hl rfl
    have hrest : Yields (Tidy s) t _ _ :=
      .of_describes hfirst.unique (describes_location_put hfirst.unique hfound es hapart)
    have hput : t.putLocation (putAll es l₁) =
        (s.putLocation l').discardPlans (stale s [] (l.id :: parentId.toList)) := by
      have : putAll es l₁ = l' := by cases order <;> rfl
      rw [this]
      exact congrArg (WorkspaceState.discardPlans · (stale s [] (l.id :: parentId.toList)))
        (putLocation_putLocation s (l := l₁) (m := l') rfl)
    rw [hput] at hrest
    refine ⟨((s.putLocation l').discardPlans
      (stale s [] (l.id :: parentId.toList))).setProgress (ls.map Location.id) env.timestamp, ?_,
      .changeLocation hl hact rfl rfl rfl (.inr ⟨rfl, hnew⟩) (.inl rfl)⟩
    simp only [ne_eq, hm, not_false_eq_true, if_true, hchanged]
    refine .append ?_ (hls.yields_put (m := l') (hfirst.append hrest).unique (fun hs => ?_) rfl)
    · rw [List.append_assoc]
      refine hfirst.append ?_
      cases order <;> exact hrest
    · intro hin
      rcases hamong l.id hin with h | h
      · exact hs.acyclic l.id (.single ⟨l, hlm, rfl, h⟩)
      · exact (hnew l.id h).2 .refl

/-- The order of a space. -/
theorem locationReorder_effect (hr : UniqueRecords s) {id : String} {order : JsNumber}
    (h : locationReorder s env id order = .ok change) : HasEffect s env change := by
  simp only [locationReorder, result_bind_ok, requireActiveLocation_ok, result_pure_ok] at h
  obtain ⟨l, ⟨hl, hact⟩, _, _, _, _, rfl⟩ := h
  rw [← (findLocation_mem hl).2] at hl
  have hd := describes_location_put hr hl
    [.order order, .updatedAt env.timestamp] (apart_location (by simp [LocationEntry.key]))
  refine ⟨((s.putLocation { l with order, updatedAt := env.timestamp }).discardPlans
    (stale s [] [])).setProgress [] env.timestamp, ?_,
    .changeLocation hl hact rfl rfl rfl (.inl rfl) (.inl rfl)⟩
  rw [stale_nil, discardPlans_nil, setProgress_nil]
  exact .of_describes hr hd

omit [Host] in

/-- No active space is directly inside. -/
theorem hasLiveChild_false {id : String} :
    hasLiveChild s id = false ↔ ∀ m ∈ s.locations, m.parentId = some id → m.active = false := by
  simp [hasLiveChild]

omit [Host] in

/-- The active items directly inside. -/
theorem mem_directItems {id : String} {i : ItemRecord} :
    i ∈ directItems s id ↔ i ∈ s.items ∧ i.locationId = id ∧ i.active = true := by
  simp [directItems]

/-- The status of a space. -/
theorem captureStatus_effect (hr : UniqueRecords s) {id : String} {status : CaptureStatus}
    (h : captureStatus s env id status = .ok change) : HasEffect s env change := by
  simp only [captureStatus, result_bind_ok, requireActiveLocation_ok, refuse_ok,
    result_pure_ok] at h
  obtain ⟨l, ⟨hl, hact⟩, _, _, _, hitems, _, hchild, rfl⟩ := h
  rw [← (findLocation_mem hl).2] at hl
  have hstale := yields_stale (s := s) hr rfl [] [l.id]
  have hd := describes_location_put (s := s.discardPlans (stale s [] [l.id]))
    hstale.unique hl [.captureStatus status, .updatedAt env.timestamp]
    (apart_location (by simp [LocationEntry.key]))
  refine ⟨(s.putLocation { l with captureStatus := status, updatedAt := env.timestamp }).discardPlans
    (stale s [] [l.id]), hstale.append (.of_describes hstale.unique hd),
    .markCapture hl hact fun hs => ?_⟩
  simp only [hs, decide_true, Bool.true_and, Bool.not_eq_false', List.isEmpty_iff] at hitems hchild
  refine ⟨hasLiveChild_false.mp hchild, fun i hi hat => ?_⟩
  by_contra ha
  have : i ∈ directItems s l.id := mem_directItems.mpr ⟨hi, hat, by simpa using ha⟩
  rw [hitems] at this
  cases this

/-- A space is archived when nothing active is inside, and restored below an active parent. -/
theorem locationArchive_effect (hr : UniqueRecords s) {id : String} {archived : Bool}
    (h : locationArchive s env id archived = .ok change) : HasEffect s env change := by
  simp only [locationArchive, refuseNoChanges, result_bind_ok, requireLocation_ok, checkIf_ok,
    refuse_ok, result_pure_ok] at h
  obtain ⟨l, hl, _, hold, _, hempty, _, hcheck, _, _, progress, hprogress, rfl⟩ := h
  rw [← (findLocation_mem hl).2] at hl
  have hchanged : [some l.id, l.parentId].filterMap (·) = l.id :: l.parentId.toList := by
    cases l.parentId <;> rfl
  have hentries : ∀ archivedAt, Yields (Tidy s) s
      ([patch .location l.id "archivedAt" (encode l.archivedAt) (encode archivedAt),
        patch .location l.id "updatedAt" (encode l.updatedAt) (encode env.timestamp)] ++
        planInvalidationPatches s [] (l.id :: l.parentId.toList))
      ((s.putLocation { l with archivedAt, updatedAt := env.timestamp }).discardPlans
        (stale s [] (l.id :: l.parentId.toList))) := by
    intro archivedAt
    have hd := describes_location_put hr hl [.archivedAt archivedAt, .updatedAt env.timestamp]
      (apart_location (by simp [LocationEntry.key]))
    exact .append (.of_describes hr hd) (yields_stale (s := s)
      (t := s.putLocation { l with archivedAt, updatedAt := env.timestamp }) (hr.of_describes hd)
      rfl _ _)
  cases archived with
  | true =>
      obtain ⟨_, hinside, hitems⟩ := hempty rfl
      simp only [Bool.not_true, Bool.false_and, Bool.false_eq_true, if_false,
        Except.ok.injEq] at hprogress
      subst hprogress
      refine ⟨_, ?_, .archive hl (by simpa [Location.active] using hold) ?_ ?_⟩
      · simp only [hchanged, if_true, List.append_nil]
        exact hentries _
      · intro m hm hpath hne
        have := List.any_eq_false.mp hinside m (hr.mem_descendantsOf.mpr ⟨hm, hpath, hne⟩)
        simpa using this
      · intro i hi hat
        have := List.any_eq_false.mp hitems i hi
        simpa [hat] using this
  | false =>
      have hc := validateLocation_ok (hcheck rfl)
      have hcode : ∀ m ∈ s.locations, m.id ≠ l.id → m.active = true →
          codeKey m.code ≠ codeKey l.code :=
        fun m hm hne ha => hc.unused m hm (fun e => hne (Option.some.inj e)) ha
      have hprog : ∃ covers ls, Progress s env.timestamp covers progress ls ∧
          ∀ p, p ∈ covers ↔ l.parentId = some p := by
        cases hp : l.parentId with
        | none =>
            rw [if_neg (by simp [hp, isSet])] at hprogress
            cases hprogress
            exact ⟨[], [], Progress.nil _ _, by simp⟩
        | some p =>
            have hset : isSet (some p) = true := isSet_some (ne_empty_of_not_blank (hc.parent p hp).1)
            rw [if_pos (by simpa [hp] using hset), hp] at hprogress
            obtain ⟨ls, hls⟩ := captureProgressPatches_ok hprogress
            exact ⟨_, ls, hls, by simp [eq_comm]⟩
      obtain ⟨covers, ls, hls, hcovers⟩ := hprog
      refine ⟨_, ?_, .restore hl hcode fun p hp => hls.entered ((hcovers p).mpr hp)⟩
      simp only [hchanged, Bool.false_eq_true, if_false]
      refine (hentries none).append (hls.yields_put
        (m := { l with archivedAt := none, updatedAt := env.timestamp }) (hentries none).unique
        (fun _ hin => ?_) rfl)
      exact (hc.parent l.id ((hcovers l.id).mp hin)).2.1 rfl

/-- A location and those the search finds inside, by identifier. -/
def subtreeIds (s : WorkspaceState) (id : String) : List String :=
  id :: (descendantsOf s id).map Location.id

/-- The items with a property, by identifier. -/
def contentIds (s : WorkspaceState) (p : ItemRecord → Bool) : List String :=
  sortStrings ((s.items.filter p).map ItemRecord.id)

omit [Host] in
/-- The search finds the locations at or below one. -/
theorem mem_subtreeIds (hr : UniqueRecords s) {id : String} {m : Location}
    (hm : m ∈ s.locations) : m.id ∈ subtreeIds s id ↔ ReflTransGen (Under s) m.id id := by
  rw [subtreeIds, List.mem_cons, reflTransGen_iff_eq_or_transGen, eq_comm (a := id), List.mem_map]
  by_cases he : m.id = id
  · simp [he]
  · refine or_congr_right ⟨?_, fun ht => ⟨m, hr.mem_descendantsOf.mpr ⟨hm, ht, he⟩, rfl⟩⟩
    rintro ⟨c, hc, he⟩
    exact he ▸ (hr.mem_descendantsOf.mp hc).2.1

omit [Host] in
theorem mem_contentIds (hr : UniqueRecords s) {p : ItemRecord → Bool} {i : ItemRecord}
    (hi : i ∈ s.items) : i.id ∈ contentIds s p ↔ p i = true := by
  rw [contentIds, mem_sortStrings, List.mem_map]
  constructor
  · rintro ⟨j, hj, he⟩
    obtain ⟨hj, hat⟩ := List.mem_filter.mp hj
    rwa [eq_of_key_eq hr.items hj hi he] at hat
  · exact fun hat => ⟨i, List.mem_filter.mpr ⟨hi, hat⟩, rfl⟩

omit [Host] in
/-- The patches of a deleted space yield the records without it, what is inside it and its
    contents. -/
theorem locationDelete_yields (hr : UniqueRecords s) {l : Location}
    {descendantIds itemIds : List String} (hl : findLocation s l.id = some l)
    (h : locationDelete s l.id descendantIds itemIds = .ok change) :
    let inside := subtreeIds s l.id
    let contents := contentIds s fun i => inside.contains i.locationId
    Yields (Tidy s) s change.patches
      (((s.dropItems contents).dropLocations inside).discardPlans (stale s contents inside)) := by
  intro inside contents
  simp only [locationDelete, result_bind_ok, requireLocation_ok, result_pure_ok] at h
  obtain ⟨l', hl', _, _, items, hitems, _, _, rfl⟩ := h
  obtain rfl : l = l' := Option.some.inj (hl.symm.trans hl')
  obtain ⟨hids, hfound⟩ := items_of_mapM hitems
  have hnodup : contents.Nodup :=
    (perm_sortStrings _).nodup_iff.mpr (nodup_filter hr.items _)
  have hinnodup : (((descendantsOf s l.id).reverse ++ [l]).map Location.id).Nodup := by
    rw [List.map_append, List.map_reverse, List.nodup_append, List.nodup_reverse]
    refine ⟨nodup_descend _ _ _ _, by simp, ?_⟩
    intro a ha b hb he
    rw [List.mem_reverse, List.mem_map] at ha
    obtain ⟨c, hc, rfl⟩ := ha
    rw [List.map_singleton, List.mem_singleton] at hb
    exact (hr.mem_descendantsOf.mp hc).2.2 (he.trans hb)
  have hd1 := yields_stale (s := s) hr rfl contents inside
  have hd2 := describes_dropItems (s := s.discardPlans (stale s contents inside))
    (hids ▸ hnodup) hfound
  have hd3 := describes_dropLocations (s := (s.discardPlans (stale s contents inside)).dropItems
    (items.map ItemRecord.id)) hinnodup fun m hm => by
      rcases List.mem_append.mp hm with hm | hm
      · exact hr.findLocation (hr.mem_descendantsOf.mp (List.mem_reverse.mp hm)).1
      · rw [List.mem_singleton.mp hm]
        exact hl
  have hfinal : (s.dropItems contents).dropLocations inside =
      (s.dropItems (items.map ItemRecord.id)).dropLocations
        (((descendantsOf s l.id).reverse ++ [l]).map Location.id) := by
    rw [hids]
    refine dropLocations_congr _ fun x => ?_
    simp [inside, subtreeIds, or_comm]
  rw [hfinal]
  have hd := hd1.append (.of_describes hd1.unique (hd2.append hd3))
  rw [List.map_append] at hd
  simp only [List.append_assoc] at hd ⊢
  exact hd

/-- A space goes with everything inside it. -/
theorem locationDelete_effect (hr : UniqueRecords s) {id : String}
    {descendantIds itemIds : List String}
    (h : locationDelete s id descendantIds itemIds = .ok change) : HasEffect s env change := by
  have hfound := h
  simp only [locationDelete, result_bind_ok, requireLocation_ok] at hfound
  obtain ⟨l, hl, -⟩ := hfound
  obtain ⟨-, rfl⟩ := findLocation_mem hl
  refine ⟨_, locationDelete_yields hr hl h,
    .deleteLocation hl (fun m hm => mem_subtreeIds hr hm) fun i hi => ?_⟩
  rw [mem_contentIds hr hi, List.contains_iff_mem]

omit [Host] in
/-- The patches of an emptied space yield the records without the active items directly inside. -/
theorem captureEmpty_yields (hr : UniqueRecords s) {l : Location} {itemIds : List String}
    (hl : findLocation s l.id = some l)
    (h : captureEmpty s env l.id itemIds = .ok change) :
    let directIds := contentIds s fun i => i.locationId = l.id && i.active
    Yields (Tidy s) s change.patches (((s.dropItems directIds).putLocation
        { l with captureStatus := .knownEmpty, updatedAt := env.timestamp }).discardPlans
      (stale s directIds [l.id])) := by
  intro directIds
  simp only [captureEmpty, result_bind_ok, requireActiveLocation_ok, refuse_ok,
    result_pure_ok] at h
  obtain ⟨l', ⟨hl', -⟩, _, _, _, _, _, _, rfl⟩ := h
  obtain rfl : l = l' := Option.some.inj (hl.symm.trans hl')
  have hn : ((directItems s l.id).map ItemRecord.id).Nodup := nodup_filter hr.items _
  have hd1 := yields_stale (s := s) hr rfl directIds [l.id]
  have hd2 := describes_dropItems (s := s.discardPlans (stale s directIds [l.id])) hn
    fun i hi => hr.findItem (mem_directItems.mp hi).1
  have hd3 := describes_location_put (hd1.unique.of_describes hd2) (l := l) hl
    [.captureStatus .knownEmpty, .updatedAt env.timestamp]
    (apart_location (by simp [LocationEntry.key]))
  have hdrop : s.dropItems directIds = s.dropItems ((directItems s l.id).map ItemRecord.id) :=
    dropItems_congr s fun x => mem_sortStrings
  rw [hdrop, List.append_assoc]
  exact hd1.append (.of_describes hd1.unique (hd2.append hd3))

/-- The items directly inside a space go. -/
theorem captureEmpty_effect (hr : UniqueRecords s) {id : String} {itemIds : List String}
    (h : captureEmpty s env id itemIds = .ok change) : HasEffect s env change := by
  have hchecks := h
  simp only [captureEmpty, result_bind_ok, requireActiveLocation_ok, refuse_ok] at hchecks
  obtain ⟨l, ⟨hl, hact⟩, _, _, _, hchild, -⟩ := hchecks
  obtain ⟨-, rfl⟩ := findLocation_mem hl
  refine ⟨_, captureEmpty_yields hr hl h, .emptyLocation hl hact (hasLiveChild_false.mp hchild) ?_⟩
  intro i hi
  rw [mem_contentIds hr hi]
  simp

/-! ## 3. Items -/

/-- What `validateItem` has checked when it returns. -/
structure ItemChecked (s : WorkspaceState) (i : ItemRecord) : Prop where
  id : blank i.id = false
  locationId : blank i.locationId = false
  name : blank i.name = false
  unit : blank i.unit = false
  quantity : i.quantity.isFinite = true ∧ i.quantity.pos = true
  order : i.order.isFinite = true
  dimensions : dimensionsValid i.dimensions = true
  version : 1 ≤ i.version ∧ JsNumber.safeInt i.version = true
  placed : i.active = true → ActiveAt s i.locationId

omit [Host] in

/-- What an item must be to be stored. -/
theorem validateItem_ok {i : ItemRecord} {u : Unit} (h : validateItem s i = .ok u) :
    ItemChecked s i := by
  simp only [validateItem, result_bind_ok, refuse_ok, checkIf_ok, requireActiveLocation_ok,
    result_pure_ok, Bool.or_eq_false_iff, Bool.not_eq_false', decide_eq_false_iff_not,
    not_lt] at h
  obtain ⟨_, h1, _, h2, _, h3, _, h4, _, h5, _, h6, _, h7, h8⟩ := h
  refine ⟨h1, h2, h3, h5, h4, h6, h7.1.1, ⟨h7.2, h7.1.2⟩, fun ha => ?_⟩
  obtain ⟨l, hl, _⟩ := h8 ha
  exact ⟨l, hl⟩

/-- New items in active locations. -/
theorem createItems_effect (hr : UniqueRecords s) (is : List ItemRecord)
    {covers changed : List String} {progress : List FieldPatch} {ls : List Location}
    (hp : Progress s env.timestamp covers progress ls) (hn : (is.map ItemRecord.id).Nodup)
    (hnew : ∀ i ∈ is, findItem s i.id = none) (hc : ∀ i ∈ is, ItemChecked s i)
    (hcovers : ∀ i ∈ is, i.locationId ∈ covers) (hchanged : ∀ i ∈ is, i.locationId ∈ changed) :
    ∃ t, Yields (Tidy s) s (planInvalidationPatches s [] changed ++
      (is.map fun i => patch .item i.id "" .undefined (encode i)) ++ progress) t ∧
      Effect s env.timestamp t := by
  have hentered : ∀ i ∈ is, Entered s (ls.map Location.id) i.locationId :=
    fun i hi => hp.entered (hcovers i hi)
  have hfits : ∀ i ∈ is, ItemFits s i := by
    intro i hi
    obtain ⟨l, hl, _⟩ := hentered i hi
    exact ⟨⟨l, findLocation_mem hl⟩, (hc i hi).quantity, (hc i hi).version⟩
  refine ⟨_, ?_, .createItems hn hnew hfits hchanged hentered⟩
  have hd1 := yields_stale (s := s) hr rfl [] changed
  have hd2 := describes_addItems (s := s.discardPlans (stale s [] changed)) hn hnew
  have hd := hd1.append (.of_describes hd1.unique hd2)
  exact hd.append (hp.yields_same hd.unique rfl)

/-- A new item in an active space. -/
theorem itemCreate_effect (hr : UniqueRecords s) {i : ItemRecord}
    (h : itemCreate s env i = .ok change) : HasEffect s env change := by
  simp only [itemCreate, result_bind_ok, refuse_ok, result_pure_ok] at h
  obtain ⟨_, hcheck, _, hnew, _, _, progress, hprogress, rfl⟩ := h
  obtain ⟨ls, hls⟩ := captureProgressPatches_ok hprogress
  have hnew : findItem s i.id = none :=
    findKey_eq_none.mpr fun j hj => by simpa using List.any_eq_false.mp hnew j hj
  exact createItems_effect hr [i] hls (List.nodup_singleton i.id) (by simpa using hnew)
    (by simpa using validateItem_ok hcheck) (by simp) (by simp)

omit [Host] in

/-- Items that are imported together have ids of their own, and all are checked. -/
theorem checkImported_ok {seen : List String} {is : List ItemRecord}
    (h : checkImported s seen is = .ok ()) :
    (is.map ItemRecord.id).Nodup ∧ ∀ i ∈ is, ItemChecked s i ∧ findItem s i.id = none ∧
      i.id ∉ seen := by
  induction is generalizing seen with
  | nil => simp
  | cons i is ih =>
      simp only [checkImported, result_bind_ok, refuse_ok] at h
      obtain ⟨_, hcheck, _, hseen, _, hnew, h⟩ := h
      obtain ⟨hn, hrest⟩ := ih h
      refine ⟨List.nodup_cons.mpr ⟨fun hm => ?_, hn⟩, fun j hj => ?_⟩
      · obtain ⟨j, hj, he⟩ := List.mem_map.mp hm
        exact (hrest j hj).2.2 (he ▸ List.mem_cons_self)
      · rcases List.mem_cons.mp hj with rfl | hj
        · refine ⟨validateItem_ok hcheck, findKey_eq_none.mpr fun k hk => ?_, by simpa using hseen⟩
          simpa using List.any_eq_false.mp hnew k hk
        · obtain ⟨h1, h2, h3⟩ := hrest j hj
          exact ⟨h1, h2, fun hm => h3 (List.mem_cons_of_mem _ hm)⟩

/-- Several new items in active spaces. -/
theorem itemBulkCreate_effect (hr : UniqueRecords s) {is : List ItemRecord} {reopen : Bool}
    (h : itemBulkCreate s env is reopen = .ok change) : HasEffect s env change := by
  simp only [itemBulkCreate, result_bind_ok, refuse_ok, checkIf_ok, result_pure_ok] at h
  obtain ⟨_, _, _, hcheck, destinations, _, _, hopen, progress, hprogress, rfl⟩ := h
  obtain ⟨hn, hall⟩ := checkImported_ok hcheck
  have hprog : ∃ ls, Progress s env.timestamp (uniq (uniq (is.map (·.locationId)))) progress ls := by
    refine progressEach_ok (nodup_uniq _) (fun m hm ha hin hempty => ?_) hprogress
    cases reopen with
    | true => simp [hempty, CaptureStatus.complete]
    | false =>
        -- contents of a completed location cannot be edited
        rw [mem_uniq] at hin
        obtain ⟨i, hi, he⟩ := List.mem_map.mp (mem_uniq.mp hin)
        have hne : m.id ≠ "" := he ▸ ne_empty_of_not_blank (hall i hi).1.locationId
        have := assertCaptureContentsEditable_ok (hopen rfl) (List.mem_map_of_mem hin) hne hm ha
        rw [hempty] at this
        cases this
  obtain ⟨ls, hls⟩ := hprog
  exact createItems_effect hr is hls hn (fun i hi => (hall i hi).2.1) (fun i hi => (hall i hi).1)
    (fun i hi => by simpa using ⟨i, hi, rfl⟩) (fun i hi => mem_uniq.mpr (List.mem_map_of_mem hi))

omit [Host] in
theorem putAll_changed_item {i : ItemRecord} {es : List ItemEntry} (hp : Apart es) :
    putAll (changedItemEntries i es) i = putAll es i :=
  putAll_filter hp (fun _ _ => rfl) fun e _ he =>
    FieldEntry.eq_of_equal e i ((Bool.not_eq_false' _).mp he)

omit [Host] in
/-- The changed fields of an item, its timestamp and its version. -/
theorem describes_item_changes (hr : UniqueRecords s) {i : ItemRecord} (hi : findItem s i.id = some i)
    {es : List ItemEntry} (hp : Apart es)
    (hkeys : ∀ e ∈ es, e.key ≠ "updatedAt" ∧ e.key ≠ "version") (timestamp : String)
    (version : Int) :
    Describes s (itemFieldPatches i (changedItemEntries i es) timestamp version)
      (s.putItem { putAll es i with updatedAt := timestamp, version := version }) := by
  set ce := changedItemEntries i es with hce
  have hmem : ∀ e ∈ ce, e ∈ es := fun e he => (List.mem_filter.mp he).1
  have hapart : Apart (ce ++ [ItemEntry.updatedAt timestamp, .version version]) := by
    refine List.pairwise_append.mpr ⟨hp.sublist List.filter_sublist, ?_, ?_⟩
    · exact List.pairwise_pair.mpr fun a => rfl
    · intro e he e' he' a
      obtain ⟨h1, h2⟩ := hkeys e (hmem e he)
      rcases List.mem_pair.mp he' with rfl | rfl
      · exact ItemEntry.here_put_ne h1 (.inr rfl) a
      · exact ItemEntry.here_put_ne h2 (.inr rfl) a
  have hall : putAll (ce ++ [ItemEntry.updatedAt timestamp, .version version]) i =
      { putAll es i with updatedAt := timestamp, version := version } := by
    rw [← putAll_changed_item hp]
    unfold putAll
    rw [List.foldl_append]
    rfl
  have h := describes_item_put hr hi _ hapart
  rw [hall, List.map_append] at h
  exact h

omit [Host] in
@[simp] theorem key_normalizedItemEntry (n : ItemRecord) (e : ItemEntry) :
    (normalizedItemEntry n e).key = e.key := by
  cases e <;> rfl

omit [Host] in

/-- The quantity of an item changes only to the one that was checked. -/
theorem quantity_putAll_normalized (n : ItemRecord) (es : List ItemEntry) {a b : ItemRecord}
    (h : a.quantity = b.quantity) :
    (putAll (es.map (normalizedItemEntry n)) a).quantity = (putAll es b).quantity := by
  induction es generalizing a b with
  | nil => exact h
  | cons e es ih =>
      refine ih (a := (normalizedItemEntry n e).put a) (b := e.put b) ?_
      cases e <;> first | exact h | rfl

omit [Host] in
/-- Entries under the keys a change may have set different fields. -/
theorem apart_item {es : List ItemEntry} (hn : (es.map ItemEntry.key).Nodup)
    (hkeys : ∀ e ∈ es, e.key ∈ itemChangeKeys) : Apart es := by
  refine (List.pairwise_map.mp hn).imp_of_mem fun {e e'} he he' hne i => ?_
  refine ItemEntry.here_put_ne hne ?_ i
  have hc : ∀ e ∈ es, e.constrains = true → e.key = "constraints" := by
    intro e he hcon
    have := hkeys e he
    cases e with
    | constraints v => rfl
    | constraint e => cases e <;> simp [ItemEntry.key, ConstraintEntry.key, itemChangeKeys] at this
    | _ => cases hcon
  by_contra hcon
  rw [not_or, Bool.not_eq_false, Bool.not_eq_false] at hcon
  exact hne ((hc e he hcon.1).trans (hc e' he' hcon.2).symm)

omit [Host] in
/-- Setting other fields leaves where an item is and whether it is there. -/
theorem item_putAll_keeps {es : List ItemEntry} (h : ∀ e ∈ es, e.key ∈ itemChangeKeys)
    (i : ItemRecord) :
    (putAll es i).locationId = i.locationId ∧ (putAll es i).archivedAt = i.archivedAt := by
  constructor
  · refine putAll_keeps (f := ItemRecord.locationId) (fun e he a => ?_) i
    have := h e he
    cases e <;> first | rfl | simp [ItemEntry.key, itemChangeKeys] at this
  · refine putAll_keeps (f := ItemRecord.archivedAt) (fun e he a => ?_) i
    have := h e he
    cases e <;> first | rfl | simp [ItemEntry.key, itemChangeKeys] at this

/-- The details of an item. -/
theorem itemUpdate_effect (hr : UniqueRecords s) {id : String} {changes : ItemChanges}
    (h : itemUpdate s env id changes = .ok change) : HasEffect s env change := by
  simp only [itemUpdate, result_bind_ok, requireItem_ok, assertAllowedChanges_ok,
    nextItemVersion_ok, result_pure_ok] at h
  obtain ⟨i, hi, _, hkeys, _, -, version, ⟨_, hmax, rfl⟩, _, hcheck, _, -, _, -, rfl⟩ := h
  rw [← (findItem_mem hi).2] at hi
  have hc := validateItem_ok hcheck
  set next := changedItem i changes env.timestamp (i.version + 1) with hnext
  set es := changes.entries.map (normalizedItemEntry next) with hes
  have hekeys : ∀ e ∈ es, e.key ∈ itemChangeKeys := by
    intro e he
    obtain ⟨e', he', rfl⟩ := List.mem_map.mp he
    rw [key_normalizedItemEntry]
    exact hkeys _ (List.mem_map_of_mem he')
  have hnodup : (es.map ItemEntry.key).Nodup := by
    have : es.map ItemEntry.key = changes.entries.map ItemEntry.key := by
      rw [hes, List.map_map]
      exact List.map_congr_left fun e _ => key_normalizedItemEntry next e
    rw [this]
    exact changes.nodup
  have hapart := apart_item hnodup hekeys
  set c := ["category", "constraints", "dimensions", "frequency", "quantity", "tags", "unit"].any
    fun field => (changedItemEntries i es).any fun e => e.key == field with hcdef
  set itemIds := if c = true then [i.id] else []
  set changed := if c = true then [i.locationId] else []
  let i' : ItemRecord :=
    { putAll es i with updatedAt := env.timestamp, version := i.version + 1 }
  obtain ⟨hloc, harch⟩ := item_putAll_keeps hekeys i
  have hid : i'.id = i.id := idOf_putAll es i
  have hquantity : i'.quantity = next.quantity :=
    quantity_putAll_normalized next changes.entries rfl
  have hfits' : ItemFits s i → ItemFits s i' := by
    intro hfits
    refine ⟨?_, hquantity ▸ hc.quantity, version_succ hfits.version.1 hmax⟩
    rw [show i'.locationId = i.locationId from hloc]
    exact hfits.stored
  have hold : i'.quantity ≠ i.quantity → i'.id ∈ itemIds := by
    intro hne
    have hctrue : c = true := by
      by_contra hfalse
      refine hne ?_
      show (putAll es i).quantity = i.quantity
      rw [← putAll_changed_item hapart]
      refine putAll_keeps (f := ItemRecord.quantity) (fun e he a => ?_) i
      cases e <;> first | rfl | skip
      exact absurd (List.any_eq_true.mpr ⟨"quantity", by simp,
        List.any_eq_true.mpr ⟨_, he, rfl⟩⟩) hfalse
    simp [itemIds, hctrue, hid]
  have heff : Effect s env.timestamp (((s.putItems [i']).discardPlans
      (stale s itemIds changed)).setProgress [] env.timestamp) := by
    refine .changeItems (by simp) (fun j hj => ?_) fun j hj k hk hfits => ?_
    · rw [List.mem_singleton.mp hj]
      exact ⟨i, hid ▸ hi, hloc, harch, hold⟩
    · rw [List.mem_singleton.mp hj, hid, hi] at hk
      obtain rfl := Option.some.inj hk
      rw [List.mem_singleton.mp hj]
      exact hfits' hfits
  refine ⟨_, ?_, heff⟩
  rw [setProgress_nil]
  have hd1 := yields_stale_if (s := s) (b := c) hr rfl [i.id] [i.locationId]
  have hd2 := describes_item_changes hd1.unique (i := i) hi hapart
    (fun e he => ⟨fun hk => ?_, fun hk => ?_⟩) env.timestamp (i.version + 1)
  · exact hd1.append (.of_describes hd1.unique hd2)
  all_goals
    have := hekeys e he
    rw [hk] at this
    simp [itemChangeKeys] at this

omit [Host] in
/-- Different fields of an item, none of them about constraints. -/
theorem apart_item_plain {es : List ItemEntry} (hn : (es.map ItemEntry.key).Nodup)
    (hc : ∀ e ∈ es, e.constrains = false) : Apart es :=
  (List.pairwise_map.mp hn).imp_of_mem fun {_ e'} _ he' hne i =>
    ItemEntry.here_put_ne hne (.inr (hc e' he')) i

/-- The order of an item. -/
theorem itemReorder_effect (hr : UniqueRecords s) {id : String} {order : JsNumber}
    (h : itemReorder s env id order = .ok change) : HasEffect s env change := by
  simp only [itemReorder, result_bind_ok, requireItem_ok, nextItemVersion_ok,
    result_pure_ok] at h
  obtain ⟨i, hi, _, _, _, _, _, _, version, ⟨_, hmax, rfl⟩, rfl⟩ := h
  rw [← (findItem_mem hi).2] at hi
  let i' : ItemRecord := { i with order, updatedAt := env.timestamp, version := i.version + 1 }
  have heff : Effect s env.timestamp (((s.putItems [i']).discardPlans
      (stale s [] [])).setProgress [] env.timestamp) := by
    refine .changeItems (by simp) ?_ ?_
    · intro j hj
      rw [List.mem_singleton.mp hj]
      exact ⟨i, hi, rfl, rfl, fun hne => absurd rfl hne⟩
    · intro j hj k hk hfits
      rw [List.mem_singleton.mp hj] at hk ⊢
      obtain rfl := Option.some.inj (hk.symm.trans hi)
      exact ⟨hfits.stored, hfits.quantity, version_succ hfits.version.1 hmax⟩
  refine ⟨_, .of_describes hr ?_, heff⟩
  rw [stale_nil, discardPlans_nil, setProgress_nil]
  refine describes_item_put hr hi
    [.order order, .updatedAt env.timestamp, .version (i.version + 1)]
    (apart_item_plain (by simp [ItemEntry.key]) (by simp [ItemEntry.constrains]))

omit [Host] in
/-- The patches of a deleted item yield the records without it. -/
theorem itemDelete_yields (hr : UniqueRecords s) {i : ItemRecord}
    (hi : findItem s i.id = some i) (h : itemDelete s i.id = .ok change) :
    Yields (Tidy s) s change.patches
      ((s.dropItem i.id).discardPlans (stale s [i.id] [i.locationId])) := by
  simp only [itemDelete, result_bind_ok, requireItem_ok, result_pure_ok] at h
  obtain ⟨i', hi', _, _, rfl⟩ := h
  obtain rfl : i = i' := Option.some.inj (hi.symm.trans hi')
  have hd := yields_stale (s := s) hr rfl [i.id] [i.locationId]
  exact hd.append (.of_describes hd.unique (.single (.dropItem i hi)))

/-- An item goes. -/
theorem itemDelete_effect (hr : UniqueRecords s) {id : String}
    (h : itemDelete s id = .ok change) : HasEffect s env change := by
  have hfound := h
  simp only [itemDelete, result_bind_ok, requireItem_ok] at hfound
  obtain ⟨i, hi, -⟩ := hfound
  obtain ⟨-, rfl⟩ := findItem_mem hi
  exact ⟨_, itemDelete_yields hr hi h, .deleteItem hi⟩

omit [Host] in
/-- A bulk change sets no field that has a command of its own. -/
theorem leaves_keep {b : BulkEntry} {e : ItemEntry} (he : e ∈ b.leaves) :
    (∀ a, (e.put a).locationId = a.locationId ∧ (e.put a).archivedAt = a.archivedAt) ∧
      e.key ≠ "updatedAt" ∧ e.key ≠ "version" := by
  cases b with
  | constraints v =>
      obtain ⟨c, _, rfl⟩ := List.mem_map.mp he
      refine ⟨fun a => ⟨rfl, rfl⟩, ?_⟩
      cases c <;> simp [ItemEntry.key, ConstraintEntry.key]
  | _ =>
      rw [List.mem_singleton.mp he]
      exact ⟨fun a => ⟨rfl, rfl⟩, by simp [ItemEntry.key]⟩

omit [Host] in

/-- The entries of a bulk update do not touch each other. -/
theorem apart_leaves {bs : List BulkEntry} (hn : (bs.map BulkEntry.key).Nodup) :
    Apart (bs.flatMap BulkEntry.leaves) := by
  refine List.pairwise_flatMap.mpr ⟨fun b _ => ?_, (List.pairwise_map.mp hn).imp ?_⟩
  · cases b with
    | constraints v =>
        exact List.pairwise_map.mpr ((List.pairwise_map.mp v.nodup).imp
          fun hne a => ItemEntry.here_put_constraint hne a)
    | _ => exact List.pairwise_singleton _ _
  · intro b b' hne e he e' he' a
    cases b <;> cases b' <;> first
      | exact absurd rfl hne
      | simp only [BulkEntry.leaves, List.mem_singleton, List.mem_map] at he he'
        first
        | subst he he'
          rfl
        | obtain ⟨c, _, rfl⟩ := he
          subst he'
          rfl
        | obtain ⟨c, _, rfl⟩ := he'
          subst he
          rfl

omit [Host] in
/-- What the loop over the edits of many items returns: the items that change, described one
    after another from a state that still has them. -/
theorem bulkUpdateLoop_ok {t : WorkspaceState} (hr : UniqueRecords t)
    {seen : List String} {updates : List BulkUpdate} {is : List ItemRecord}
    {patches : List FieldPatch} (h : bulkUpdateLoop s env seen updates = .ok (is, patches))
    (ht : ∀ i ∈ s.items, i.id ∉ seen → findItem t i.id = some i) :
    ∃ is' : List ItemRecord, is'.map ItemRecord.id = is.map ItemRecord.id ∧
      Describes t patches (t.putItems is') ∧
      (is.map ItemRecord.id).Nodup ∧ (∀ i ∈ is, findItem s i.id = some i ∧ i.id ∉ seen) ∧
      ∀ i' ∈ is', ∃ i, findItem s i'.id = some i ∧ i'.locationId = i.locationId ∧
        i'.archivedAt = i.archivedAt ∧ (ItemFits s i → ItemFits s i') := by
  induction updates generalizing t seen is patches with
  | nil =>
      simp only [bulkUpdateLoop, Except.ok.injEq, Prod.mk.injEq] at h
      obtain ⟨rfl, rfl⟩ := h
      exact ⟨[], rfl, .nil t, by simp, by simp, by simp⟩
  | cons update updates ih =>
      simp only [bulkUpdateLoop, result_bind_ok, requireActiveItem_ok, refuse_ok] at h
      obtain ⟨_, _, _, hseen, i, ⟨hi, hact⟩, _, _, _, hcheck, h⟩ := h
      obtain ⟨him, hid⟩ := findItem_mem hi
      rw [← hid] at h hseen
      have hnotin : i.id ∉ seen := by simpa using hseen
      set leaves := update.changes.entries.flatMap BulkEntry.leaves with hleaves
      have hmem : ∀ e ∈ leaves, ∃ b : BulkEntry, e ∈ b.leaves := by
        intro e he
        obtain ⟨b, _, hb⟩ := List.mem_flatMap.mp he
        exact ⟨b, hb⟩
      split at h
      · -- nothing changes for this item
        obtain ⟨is', hids, hd, hn, hold, hnew⟩ := ih hr h fun j hj hjs =>
          ht j hj fun hin => hjs (List.mem_cons_of_mem _ hin)
        exact ⟨is', hids, hd, hn, fun j hj => ⟨(hold j hj).1, fun hin =>
          (hold j hj).2 (List.mem_cons_of_mem _ hin)⟩, hnew⟩
      · simp only [result_bind_ok, nextItemVersion_ok, result_pure_ok] at h
        obtain ⟨version, ⟨_, hmax, rfl⟩, ⟨js, ps⟩, hrest, h⟩ := h
        simp only [Prod.mk.injEq] at h
        obtain ⟨rfl, rfl⟩ := h
        let i' : ItemRecord :=
          { putAll leaves i with updatedAt := env.timestamp, version := i.version + 1 }
        have hid' : i'.id = i.id := idOf_putAll leaves i
        have hstep := describes_item_changes hr (ht i him hnotin)
          (apart_leaves update.changes.nodup) (fun e he => by
            obtain ⟨b, hb⟩ := hmem e he
            exact (leaves_keep hb).2) env.timestamp (i.version + 1)
        have ht' : ∀ j ∈ s.items, j.id ∉ i.id :: seen → findItem (t.putItem i') j.id = some j := by
          intro j hj hjs
          simp only [List.mem_cons, not_or] at hjs
          rw [findItem_putItem_ne (by rw [hid']; exact hjs.1)]
          exact ht j hj hjs.2
        obtain ⟨js', hids, hd, hn, hold, hnew⟩ := ih (hr.of_describes hstep) hrest ht'
        refine ⟨i' :: js', by simp [hid', hids], hstep.append hd, ?_, ?_, ?_⟩
        · rw [List.map_cons, List.nodup_cons]
          refine ⟨fun hm => ?_, hn⟩
          obtain ⟨j, hj, he⟩ := List.mem_map.mp hm
          exact (hold j hj).2 (he ▸ List.mem_cons_self)
        · intro j hj
          rcases List.mem_cons.mp hj with rfl | hj
          · exact ⟨hid ▸ hi, hnotin⟩
          · exact ⟨(hold j hj).1, fun hin => (hold j hj).2 (List.mem_cons_of_mem _ hin)⟩
        · intro j hj
          rcases List.mem_cons.mp hj with rfl | hj
          · have hkeep : i'.locationId = i.locationId ∧ i'.archivedAt = i.archivedAt := by
              constructor
              · refine putAll_keeps (f := ItemRecord.locationId) (fun e he a => ?_) i
                obtain ⟨b, hb⟩ := hmem e he
                exact ((leaves_keep hb).1 a).1
              · refine putAll_keeps (f := ItemRecord.archivedAt) (fun e he a => ?_) i
                obtain ⟨b, hb⟩ := hmem e he
                exact ((leaves_keep hb).1 a).2
            refine ⟨i, by rw [hid', hid]; exact hi, hkeep.1, hkeep.2, fun hfits => ?_⟩
            refine ⟨?_, (validateItem_ok hcheck).quantity, version_succ hfits.version.1 hmax⟩
            rw [hkeep.1]
            exact hfits.stored
          · exact hnew j hj

/-- The details of several items. -/
theorem itemBulkUpdate_effect (hr : UniqueRecords s) {updates : List BulkUpdate} {reopen : Bool}
    (h : itemBulkUpdate s env updates reopen = .ok change) : HasEffect s env change := by
  simp only [itemBulkUpdate, result_bind_ok, result_pure_ok] at h
  obtain ⟨_, _, ⟨is, patches⟩, hloop, _, _, _, _, locations, _, progress, hprogress, rfl⟩ := h
  obtain ⟨ls, hls⟩ := bulkMoveProgress_ok hprogress
  set locationIds := uniq (is.map (·.locationId)) with hlocs
  have hd1 := yields_stale (s := s) hr rfl (is.map (·.id)) locationIds
  obtain ⟨is', hids, hd2, hn, _, hnew⟩ := bulkUpdateLoop_ok hd1.unique hloop
    fun i hi _ => hr.findItem hi
  have heff : Effect s env.timestamp (((s.putItems is').discardPlans
      (stale s (is.map (·.id)) locationIds)).setProgress (ls.map Location.id) env.timestamp) := by
    refine .changeItems (hids ▸ hn) (fun i' hi' => ?_) fun i' hi' j hj => ?_
    · obtain ⟨i, hi, hloc, harch, -⟩ := hnew i' hi'
      refine ⟨i, hi, hloc, harch, fun _ => ?_⟩
      have : i'.id ∈ is'.map ItemRecord.id := List.mem_map_of_mem hi'
      rwa [hids] at this
    · obtain ⟨i, hi, -, -, hfits⟩ := hnew i' hi'
      obtain rfl := Option.some.inj (hi.symm.trans hj)
      exact hfits
  refine ⟨_, ?_, heff⟩
  rw [← putItems_discardPlans]
  have hd := hd1.append (.of_describes hd1.unique hd2)
  exact hd.append (hls.yields_same hd.unique (by simp [WorkspaceState.discardPlans]))

/-! ## 4. Moves -/

omit [Host] in

/-- The patches of a quantity describe the item with it. -/
theorem describes_quantity (hr : UniqueRecords s) {i : ItemRecord} (hi : findItem s i.id = some i)
    (quantity : JsNumber) (timestamp : String) (version : Int) :
    Describes s (quantityPatches i quantity timestamp version)
      (s.putItem { i with quantity, updatedAt := timestamp, version }) := by
  exact describes_item_put hr hi [.quantity quantity, .updatedAt timestamp, .version version]
    (apart_item_plain (by simp [ItemEntry.key]) (by simp [ItemEntry.constrains]))

/-- The patches of a move transfer the quantity. -/
theorem moveItemPatches_ok (hr : UniqueRecords s) {i : ItemRecord} {destinationId : String}
    {quantity : JsNumber} {envelopeId timestamp : String} {patches : List FieldPatch}
    (hi : findItem s i.id = some i)
    (h : moveItemPatches s i destinationId quantity envelopeId timestamp = .ok patches) :
    i.locationId ≠ destinationId ∧ quantity.isFinite = true ∧
      (∀ p ∈ patches, p.target = .item) ∧
      ∃ t, Describes s patches t ∧ Transfer s destinationId timestamp i quantity t := by
  simp only [moveItemPatches, result_bind_ok, requireActiveLocation_ok, refuse_ok,
    decide_eq_false_iff_not, Bool.or_eq_false_iff, Bool.not_eq_false'] at h
  obtain ⟨l, hl, _, haway, _, ⟨⟨hf, hp⟩, hle⟩, h⟩ := h
  refine ⟨haway, hf, ?_⟩
  have hall := JsNumber.eq_of_sub_eq_zero (x := i.quantity) hf
  cases hm : mergeTarget s i destinationId with
  | some m =>
      obtain ⟨hmem, hne, hact, hat⟩ := mergeTarget_some hm
      have hfound := hr.findItem hmem
      simp only [hm, result_bind_ok, refuse_ok, Bool.not_eq_false', nextItemVersion_ok] at h
      obtain ⟨_, hmerged, version, ⟨_, hv, rfl⟩, h⟩ := h
      have hfirst := describes_quantity hr hfound (m.quantity.add quantity) timestamp
        (m.version + 1)
      split at h
      · rename_i hzero
        cases h
        refine ⟨by simp [quantityPatches, patch], _, hfirst.append (.single (.dropItem i ?_)),
          .merge hm hv hmerged (hall hzero)⟩
        refine (findItem_putItem_ne ?_).trans hi
        exact Ne.symm hne
      · rename_i hpart
        simp only [result_bind_ok, nextItemVersion_ok, result_pure_ok] at h
        obtain ⟨version, ⟨_, hvi, rfl⟩, rfl⟩ := h
        refine ⟨by simp [quantityPatches, patch], _, hfirst.append
          (describes_quantity (hr.of_describes hfirst) (i := i) ?_ _ _ _),
          .mergePart hm hv hvi hmerged hf hp fun hq => JsNumber.lt_of_sub_ne_zero hq hf hle hpart⟩
        refine (findItem_putItem_ne ?_).trans hi
        exact Ne.symm hne
  | none =>
      simp only [hm] at h
      split at h
      · rename_i hzero
        simp only [result_bind_ok, nextItemVersion_ok, result_pure_ok] at h
        obtain ⟨version, ⟨_, hvi, rfl⟩, rfl⟩ := h
        have hd := describes_item_put hr hi [.locationId destinationId,
          .order (destinationOrder s destinationId), .updatedAt timestamp,
          .version (i.version + 1)] (apart_item_plain (by simp [ItemEntry.key])
          (by simp [ItemEntry.constrains]))
        exact ⟨by simp [patch], _, hd, .relocate hvi (hall hzero)⟩
      · rename_i hpart
        simp only [result_bind_ok, refuse_ok, nextItemVersion_ok, result_pure_ok] at h
        obtain ⟨_, hnew, version, ⟨_, hvi, rfl⟩, rfl⟩ := h
        have hnone : findItem s s!"item_split_{envelopeId}" = none :=
          findKey_eq_none.mpr fun j hj => by simpa using List.any_eq_false.mp hnew j hj
        have hne : s!"item_split_{envelopeId}" ≠ i.id := by
          intro he
          rw [he, hi] at hnone
          cases hnone
        have hd := describes_quantity hr hi (i.quantity.sub quantity) timestamp
          (i.version + 1)
        refine ⟨by simp [quantityPatches, patch], _, hd.append (.single (.addItem _ ?_)),
          .split hnone hvi hf hp fun hq => JsNumber.lt_of_sub_ne_zero hq hf hle hpart⟩
        refine (findItem_putItem_ne ?_).trans hnone
        exact hne

/-- The loop of a bulk move: the patches move the items whole, one after another. -/
theorem bulkMoveLoop_ok (hr : UniqueRecords s) {destinationId : String} {ids : List String}
    {patches : List FieldPatch} (hd : ActiveAt s destinationId)
    (h : bulkMoveLoop env destinationId s ids = .ok patches) :
    (∀ p ∈ patches, p.target = .item) ∧
      ∃ is t, is.map ItemRecord.id = ids ∧ Describes s patches t ∧
        Transfers destinationId env.timestamp s is t := by
  induction ids generalizing s patches with
  | nil =>
      simp only [bulkMoveLoop, Except.ok.injEq] at h
      subst h
      exact ⟨by simp, [], s, rfl, .nil s, .nil s⟩
  | cons id ids ih =>
      simp only [bulkMoveLoop, result_bind_ok, requireActiveItem_ok, result_pure_ok] at h
      obtain ⟨i, ⟨hi, hact⟩, ps, hps, t, ht, qs, hqs, rfl⟩ := h
      obtain ⟨_, rfl⟩ := findItem_mem hi
      obtain ⟨haway, _, htarget, t', hdesc, hmove⟩ := moveItemPatches_ok hr hi hps
      have happly := applyPatches_of_records hr (fun p hp => by rw [htarget p hp]; decide) hdesc
      rw [happly] at ht
      cases ht
      have hlocs : t.locations = s.locations := by rw [hmove.moveItem.frame]
      obtain ⟨htarget', is, u, hids, hdesc', hmoves⟩ := ih (hr.of_describes hdesc)
        (by unfold ActiveAt findLocation; rw [hlocs]; exact hd) hqs
      refine ⟨fun p hp => ?_, i :: is, u, by rw [List.map_cons, hids], hdesc.append hdesc',
        .cons hi hact haway hmove hmoves⟩
      rcases List.mem_append.mp hp with hp | hp
      · exact htarget p hp
      · exact htarget' p hp

omit [Host] in
/-- The location items enter is among those set in progress. -/
theorem moveProgress_ok {sources : List String} {destinationId : String} {reopen : Bool}
    {patches : List FieldPatch}
    (h : moveProgress s env sources destinationId reopen = .ok patches) :
    ∃ covers ls, Progress s env.timestamp covers patches ls ∧ destinationId ∈ covers := by
  unfold moveProgress at h
  split at h
  · obtain ⟨ls, hls⟩ := bulkMoveProgress_ok h
    exact ⟨_, ls, hls, by simp⟩
  · obtain ⟨ls, hls⟩ := captureProgressPatches_ok h
    exact ⟨_, ls, hls, List.mem_cons_self⟩

/-- Moved items, with the plans that makes stale and the captures it sets in progress. -/
theorem moves_describe (hr : UniqueRecords s) {t : WorkspaceState} {destinationId : String}
    {moved changed covers : List String} {patches progress : List FieldPatch}
    {ls : List Location} (htarget : ∀ p ∈ patches, p.target = .item)
    (hdesc : Describes s patches t) (hmoves : MoveItems destinationId env.timestamp s moved t)
    (hls : Progress s env.timestamp covers progress ls) (hcovers : destinationId ∈ covers)
    (hdest : destinationId ∈ changed)
    (hsource : ∀ i ∈ s.items, i.id ∈ moved → i.locationId ∈ changed) :
    ∃ u, Yields (Tidy s) s (planInvalidationPatches s moved changed ++ patches ++ progress) u ∧
      Effect s env.timestamp u ∧ u.items = t.items := by
  refine ⟨_, ?_, .moveItems hmoves (hls.entered hcovers) hdest hsource, rfl⟩
  have hd1 := yields_stale (s := s) hr rfl moved changed
  have hd2 := hdesc.items_only htarget (u := s.discardPlans (stale s moved changed)) rfl
  have ht := hmoves.frame
  have he : t.discardPlans (stale s moved changed) =
      { s.discardPlans (stale s moved changed) with items := t.items } := by
    rw [ht]
    rfl
  rw [he]
  have hd := hd1.append (.of_describes hd1.unique hd2)
  exact hd.append (hls.yields_same hd.unique rfl)

/-- A move of an item is a transfer of its quantity, with the two spaces in progress. -/
theorem itemMove_transfer (hr : UniqueRecords s) {destinationId id : String} {quantity : JsNumber}
    {reopen : Bool} (h : itemMove s env destinationId id quantity reopen = .ok change) :
    ∃ i t u, findItem s id = some i ∧ i.active = true ∧ i.locationId ≠ destinationId ∧
      quantity.isFinite = true ∧ Transfer s destinationId env.timestamp i quantity t ∧
      Yields (Tidy s) s change.patches u ∧ Effect s env.timestamp u ∧ u.items = t.items := by
  simp only [itemMove, result_bind_ok, requireActiveItem_ok, result_pure_ok] at h
  obtain ⟨i, ⟨hi, hact⟩, patches, hpatches, _, _, progress, hprogress, rfl⟩ := h
  have hi' := hi
  rw [← (findItem_mem hi).2] at hi'
  obtain ⟨haway, hf, htarget, t, hdesc, hmove⟩ := moveItemPatches_ok hr hi' hpatches
  obtain ⟨covers, ls, hls, hcovers⟩ := moveProgress_ok hprogress
  have hdest : destinationId ∈ [i.locationId, destinationId] := by simp
  have hsource : ∀ j ∈ s.items, j.id ∈ [i.id] → j.locationId ∈ [i.locationId, destinationId] := by
    intro j hj hji
    rw [eq_of_key_eq hr.items hj (findItem_mem hi).1 (List.mem_singleton.mp hji)]
    exact List.mem_cons_self
  obtain ⟨u, hu, heffect, hitems⟩ := moves_describe hr htarget hdesc
    (.cons hi' hact haway hmove.moveItem (.nil t)) hls hcovers hdest hsource
  exact ⟨i, t, u, hi, hact, haway, hf, hmove, hu, heffect, hitems⟩

/-- The effect of a move of an item. -/
theorem itemMove_effect (hr : UniqueRecords s) {destinationId id : String} {quantity : JsNumber}
    {reopen : Bool} (h : itemMove s env destinationId id quantity reopen = .ok change) :
    HasEffect s env change := by
  obtain ⟨_, _, u, _, _, _, _, _, hu, heffect, _⟩ := itemMove_transfer hr h
  exact ⟨u, hu, heffect⟩

omit [Host] in
/-- The items a bulk move moves: those selected that are not at the destination yet. -/
theorem movableIds_ok {destinationId : String} {ids movable : List String}
    (h : movableIds s destinationId ids = .ok movable) :
    movable.Sublist ids ∧ ∀ id ∈ ids, ∃ i, findItem s id = some i ∧
      (id ∈ movable → i.locationId ≠ destinationId) ∧
      (i.locationId ≠ destinationId → id ∈ movable) := by
  induction ids generalizing movable with
  | nil =>
      simp only [movableIds, Except.ok.injEq] at h
      subst h
      simp
  | cons id ids ih =>
      simp only [movableIds, result_bind_ok, requireActiveItem_ok, result_pure_ok] at h
      obtain ⟨i, ⟨hi, _⟩, more, hmore, rfl⟩ := h
      obtain ⟨hsub, hrest⟩ := ih hmore
      by_cases haway : i.locationId ≠ destinationId
      · rw [if_pos haway]
        refine ⟨hsub.cons_cons id, fun j hj => ?_⟩
        by_cases hji : j = id
        · subst hji
          exact ⟨i, hi, fun _ => haway, fun _ => List.mem_cons_self⟩
        · obtain ⟨k, hk, h1, h2⟩ := hrest j ((List.mem_cons.mp hj).resolve_left hji)
          exact ⟨k, hk, fun hm => h1 ((List.mem_cons.mp hm).resolve_left hji),
            fun hm => List.mem_cons_of_mem _ (h2 hm)⟩
      · rw [if_neg haway]
        refine ⟨hsub.cons id, fun j hj => ?_⟩
        rcases List.mem_cons.mp hj with rfl | hj
        · refine ⟨i, hi, fun hm => ?_, fun hm => absurd hm haway⟩
          obtain ⟨k, hk, h1, _⟩ := hrest j (hsub.subset hm)
          rw [hi] at hk
          cases hk
          exact h1 hm
        · exact hrest j hj

/-- A bulk move is a transfer of each item that is not there already. -/
theorem itemBulkMove_transfers (hr : UniqueRecords s) {destinationId : String}
    {itemIds : List String} {reopen : Bool}
    (h : itemBulkMove s env destinationId itemIds reopen = .ok change) :
    ∃ is t u, (∀ i, i ∈ is ↔ i ∈ s.items ∧ i.id ∈ itemIds ∧ i.locationId ≠ destinationId) ∧
      (is.map ItemRecord.id).Nodup ∧ Transfers destinationId env.timestamp s is t ∧
      Yields (Tidy s) s change.patches u ∧ Effect s env.timestamp u ∧ u.items = t.items := by
  simp only [itemBulkMove, result_bind_ok, requireActiveLocation_ok, result_pure_ok] at h
  obtain ⟨_, _, l, hl, movable, hmovable, _, hsome, patches, hloop, items, hitems, _, _, progress,
    hprogress, rfl⟩ := h
  obtain ⟨htarget, is, t, his, hdesc, hmoves⟩ := bulkMoveLoop_ok hr ⟨l, hl⟩ hloop
  obtain ⟨covers, ls, hls, hcovers⟩ := moveProgress_ok hprogress
  obtain ⟨hids, hfound⟩ := items_of_mapM hitems
  obtain ⟨hsub, hmov⟩ := movableIds_ok hmovable
  have hmem : ∀ i ∈ s.items, i.id ∈ movable → i ∈ items ∧ i ∈ is := by
    intro i hi hin
    constructor
    · rw [← hids] at hin
      obtain ⟨j, hj, he⟩ := List.mem_map.mp hin
      rwa [eq_of_key_eq hr.items (findItem_mem (hfound j hj)).1 hi he] at hj
    · rw [← his] at hin
      obtain ⟨j, hj, he⟩ := List.mem_map.mp hin
      rwa [eq_of_key_eq hr.items (hmoves.mem hj).1 hi he] at hj
  have hne : items ≠ [] := by
    rintro rfl
    rw [← hids] at hsome
    simp at hsome
  have hdest : destinationId ∈
      uniq ((items.map (·.locationId)).flatMap fun id => [id, destinationId]) := by
    obtain ⟨i, hi⟩ := List.exists_mem_of_ne_nil items hne
    exact mem_uniq.mpr (List.mem_flatMap.mpr ⟨i.locationId, List.mem_map_of_mem hi, by simp⟩)
  obtain ⟨u, hu, heffect, hu'⟩ := moves_describe hr htarget hdesc (his ▸ hmoves.moveItems) hls
    hcovers hdest fun i hi hin => mem_uniq.mpr (List.mem_flatMap.mpr
      ⟨i.locationId, List.mem_map_of_mem (hmem i hi hin).1, by simp⟩)
  refine ⟨is, t, u, fun i => ⟨fun hin => ?_, fun hall => ?_⟩, ?_, hmoves, hu, heffect, hu'⟩
  · obtain ⟨hi, _, haway⟩ := hmoves.mem hin
    exact ⟨hi, mem_uniq.mp (hsub.subset (his ▸ List.mem_map_of_mem hin)), haway⟩
  · obtain ⟨hi, hin, haway⟩ := hall
    obtain ⟨j, hj, _, hmov⟩ := hmov i.id (mem_uniq.mpr hin)
    rw [hr.findItem hi] at hj
    cases hj
    exact (hmem i hi (hmov haway)).2
  · rw [his]
    exact (nodup_uniq itemIds).sublist hsub

/-- The effect of a bulk move. -/
theorem itemBulkMove_effect (hr : UniqueRecords s) {destinationId : String} {itemIds : List String}
    {reopen : Bool} (h : itemBulkMove s env destinationId itemIds reopen = .ok change) :
    HasEffect s env change := by
  obtain ⟨_, _, u, _, _, _, hu, heffect, _⟩ := itemBulkMove_transfers hr h
  exact ⟨u, hu, heffect⟩

/-! ## 5. Plans -/

/-- A new plan, the only active one. -/
theorem planCreate_effect (hr : UniqueRecords s) {p : MovePlan}
    (h : planCreate s p = .ok change) : HasEffect s env change := by
  simp only [planCreate, result_bind_ok, refuse_ok, result_pure_ok] at h
  obtain ⟨_, _, _, hne, _, _, _, hactive, _, hnew, _, hsteps, rfl⟩ := h
  have hnew : findPlan s p.id = none :=
    findKey_eq_none.mpr fun q hq => by simpa using List.any_eq_false.mp hnew q hq
  have hok := checkNewSteps_ok hr hsteps
  have hsome : ∃ step ∈ p.steps, step.done = false := by
    obtain ⟨step, hstep⟩ := List.exists_mem_of_ne_nil p.steps (by simpa using hne)
    exact ⟨step, hstep, (hok step hstep).1⟩
  refine ⟨_, ?_, .createPlan hnew (by simpa using hactive) hsome hok⟩
  refine .of_plans hr (fun q hq => ?_) ⟨rfl, rfl⟩ fun hs => ?_
  · rcases List.mem_append.mp hq with hq | hq
    · obtain ⟨q, -, rfl⟩ := List.mem_map.mp hq
      rfl
    · rw [List.mem_singleton.mp hq]
      rfl
  refine (describes_invalidation hs.plans _).append (.single (.addPlan p ?_))
  show findKey _ _ (mapKeys _ _ _ _) = none
  rw [findKey_mapKeys (f := MovePlan.discard) (fun _ => rfl)]
  unfold findPlan at hnew
  rw [hnew]
  split <;> rfl

/-- The status of a plan; it becomes active only when no other is. -/
theorem planStatus_effect (hr : UniqueRecords s) {planId : String} {status : PlanStatus}
    (h : planStatus s planId status = .ok change) : HasEffect s env change := by
  simp only [planStatus, refuseNoChanges, result_bind_ok, requirePlan_ok, refuse_ok, checkIf_ok,
    result_pure_ok] at h
  obtain ⟨p, hp, _, hne, _, hone, _, hactivate, _, hcomplete, _, _, rfl⟩ := h
  rw [← (findPlan_mem hp).2] at hp
  have hedit : Tidy s → Edited s (patch .plan p.id "status" (encode p.status) (encode status))
      (s.putPlan { p with status }) := by
    intro hs
    have := Edited.plan (.status status) hp
    rwa [modifyPlan_eq_putPlan hs.plans hp rfl] at this
  refine ⟨s.putPlan { p with status }, .of_plans hr ?_ ⟨rfl, rfl⟩ fun hs => .single (hedit hs),
    .planStatus hp (by simpa using hne) (fun hs => ?_) fun hs => ?_⟩
  · simp [patch]
  · simp only [hs, decide_true, Bool.true_and, List.any_eq_false, Bool.not_eq_true',
      Bool.not_eq_false] at hcomplete
    exact hcomplete
  · obtain ⟨hsome, hok⟩ := assertPlanCanActivate_ok hr (hactivate (by simpa using hs))
    refine ⟨fun q hq hid hqa => ?_, hsome, hok⟩
    simp only [hs, decide_true, Bool.true_and, List.any_eq_false, Bool.and_eq_true,
      decide_eq_true_eq, not_and] at hone
    exact hone q hq hid hqa

omit [Host] in

/-- The patch of a completed step describes the plan with the step completed. -/
theorem describes_completion (hn : (s.plans.map MovePlan.id).Nodup) {p : MovePlan} (hp : findPlan s p.id = some p)
    (step : PlanStep) (timestamp : String) :
    Describes s
      [patch .plan p.id "steps" (encode p.steps)
          (encode (completeStep p.steps step timestamp)),
        patch .plan p.id "status" (encode p.status)
          (encode (p.complete step timestamp).status)]
      (s.putPlan (p.complete step timestamp)) := by
  let q : MovePlan := { p with steps := completeStep p.steps step timestamp }
  have h1 : Edited s _ (s.modifyPlan p.id (PlanEntry.steps q.steps).put) := .plan _ hp
  rw [modifyPlan_eq_putPlan hn hp rfl] at h1
  have hq : findPlan (s.putPlan q) q.id = some q := findPlan_putPlan hp rfl
  have h2 : Edited (s.putPlan q) _ ((s.putPlan q).modifyPlan q.id
    (PlanEntry.status (p.complete step timestamp).status).put) := .plan _ hq
  rw [modifyPlan_eq_putPlan (by simpa [WorkspaceState.putPlan] using hn) hq rfl] at h2
  rw [← putPlan_putPlan s (p := q) (q := p.complete step timestamp) rfl]
  exact .cons h1 (.single h2)

omit [Host] in
/-- They yield it whatever the plans are. -/
theorem yields_completion {t : WorkspaceState} (hr : UniqueRecords t) (hplans : t.plans = s.plans)
    {p : MovePlan} (hp : findPlan s p.id = some p) (step : PlanStep) (timestamp : String) :
    Yields (Tidy s) t
      [patch .plan p.id "steps" (encode p.steps)
          (encode (completeStep p.steps step timestamp)),
        patch .plan p.id "status" (encode p.status)
          (encode (p.complete step timestamp).status)]
      (t.putPlan (p.complete step timestamp)) := by
  refine .of_plans hr (by simp [patch]) ⟨rfl, rfl⟩ fun hs => ?_
  refine describes_completion (hplans ▸ hs.plans) ?_ step timestamp
  unfold findPlan
  rw [hplans]
  exact hp

omit [Host] in
/-- The progress of a step: it starts and ends at active locations. -/
theorem stepProgress_ok {step : PlanStep} {patches : List FieldPatch}
    (h : moveCaptureProgressPatches s (some step.sourceId) (some step.destinationId)
      env.timestamp = .ok patches) :
    ∃ covers ls, Progress s env.timestamp covers patches ls ∧
      (∀ id, id ∈ covers ↔ id = step.sourceId ∨ id = step.destinationId) := by
  obtain ⟨ls, hls⟩ := bulkMoveProgress_ok h
  exact ⟨_, ls, hls, fun id => by simp [eq_comm]⟩

omit [Host] in
theorem id_of_one {ps : List MovePlan} (h : ps.length ≤ 1) {p q : MovePlan} (hq : q ∈ ps)
    (hp : p ∈ ps) : q.id = p.id := by
  obtain _ | ⟨x, _ | ⟨y, ps⟩⟩ := ps
  · cases hp
  · rw [List.mem_singleton.mp hp, List.mem_singleton.mp hq]
  · simp at h

/-- A step about to be completed, and the patches of its completion. -/
theorem planStepComplete_ok {planId stepId : String}
    (h : planStepComplete s env planId stepId = .ok change) :
    ∃ p step physical, p.id = planId ∧ step.id = stepId ∧ Completing s p step ∧
      stepPatches s env step = .ok physical ∧
      change.patches = physical ++
        [patch .plan p.id "steps" (encode p.steps)
            (encode (completeStep p.steps step env.timestamp)),
          patch .plan p.id "status" (encode p.status)
            (encode (p.complete step env.timestamp).status)] := by
  simp only [planStepComplete, result_bind_ok, requirePlan_ok, refuse_ok, orThrow_ok,
    assertPlanSelection_ok, Option.mem_def, Option.some.injEq, forall_eq', result_pure_ok] at h
  obtain ⟨p, hp, _, hactive, _, hone, step, hstep, _, hundone, _, ⟨harea, hsel⟩, _, hearlier,
    physical, hphysical, rfl⟩ := h
  have hplan := (findPlan_mem hp).2
  have hid := (findKey_some hstep).2
  rw [← hplan] at hp
  rw [← hid] at hstep
  have hactive : p.status = .active := by simpa using hactive
  refine ⟨p, step, physical, hplan, hid, ⟨hp, hactive, fun q hq hqa => ?_, hstep, hundone,
    fun st hst => ?_, harea, hsel⟩, hphysical, rfl⟩
  · exact id_of_one (by simpa using hone) (List.mem_filter.mpr ⟨hq, by simpa using hqa⟩)
      (List.mem_filter.mpr ⟨(findPlan_mem hp).1, by simpa using hactive⟩)
  · simpa using List.any_eq_false.mp hearlier st hst

/-- The physical patches of an item step transfer the item's whole quantity. -/
theorem stepPatches_item (hr : UniqueRecords s) {step : PlanStep} {physical : List FieldPatch}
    (htype : step.type = .item) (h : stepPatches s env step = .ok physical) :
    ∃ i t ids, step.itemId = some i.id ∧ findItem s i.id = some i ∧ i.active = true ∧
      i.locationId = step.sourceId ∧ step.quantity = some i.quantity ∧
      ActiveAt s step.sourceId ∧ i.locationId ≠ step.destinationId ∧
      Transfer s step.destinationId env.timestamp i i.quantity t ∧
      Entered s ids step.destinationId ∧
      Yields (Tidy s) s physical (t.setProgress ids env.timestamp) := by
  unfold stepPatches at h
  split at h
  · rename_i hcase
    simp only [Bool.and_eq_true, decide_eq_true_eq, isSet_iff] at hcase
    obtain ⟨_, id, hid, _⟩ := hcase
    simp only [hid, Option.getD_some, result_bind_ok, requireItem_ok, requireActiveLocation_ok,
      refuse_ok, Bool.or_eq_false_iff, decide_eq_false_iff_not, ne_eq, not_not,
      Bool.not_eq_false', result_pure_ok] at h
    obtain ⟨i, hi, src, hsrc, dst, hdst, _, ⟨⟨hact, hsource⟩, hquantity⟩, patches, hpatches,
      progress, hprogress, rfl⟩ := h
    obtain ⟨_, rfl⟩ := findItem_mem hi
    have hquantity := eq_of_sameQuantity hquantity
    rw [hquantity, Option.getD_some] at hpatches
    obtain ⟨haway, _, _, t, hdesc, hmove⟩ := moveItemPatches_ok hr hi hpatches
    obtain ⟨covers, ls, hls, hcovers⟩ := stepProgress_ok hprogress
    have hlocs : t.locations = s.locations := by rw [hmove.moveItem.frame]
    have hd : Yields (Tidy s) s patches t := .of_describes hr hdesc
    exact ⟨i, t, _, hid, hi, hact, hsource, hquantity, ⟨src, hsrc⟩, haway, hmove,
      hls.entered ((hcovers _).mpr (.inr rfl)), hd.append (hls.yields_same hd.unique hlocs)⟩
  · split at h
    · rename_i hcase
      simp [htype] at hcase
    · cases h

/-- A step is carried out, and the plan records it. -/
theorem planStepComplete_effect (hr : UniqueRecords s) {planId stepId : String}
    (h : planStepComplete s env planId stepId = .ok change) : HasEffect s env change := by
  obtain ⟨p, step, physical, _, _, hc, hphysical, hchange⟩ := planStepComplete_ok h
  have hp := hc.found
  unfold HasEffect
  rw [hchange]
  cases htype : step.type with
  | item =>
    obtain ⟨i, t, ids, hid, hi, hact, hsource, hquantity, hsrc, haway, hmove, hentered, hd⟩ :=
      stepPatches_item hr htype hphysical
    have hplans : t.plans = s.plans := by rw [hmove.moveItem.frame]
    refine ⟨_, ?_, .completeItem hc hi htype hid hact hsource hquantity hsrc haway hmove.moveItem
      hentered⟩
    exact hd.append (yields_completion hd.unique hplans hp step env.timestamp)
  | location =>
    unfold stepPatches at hphysical
    rw [if_neg (by simp [htype])] at hphysical
    split at hphysical
    · rename_i hcase
      simp only [Bool.and_eq_true, decide_eq_true_eq, isSet_iff] at hcase
      obtain ⟨_, id, hid, _⟩ := hcase
      simp only [hid, Option.getD_some, result_bind_ok, requireActiveLocation_ok, refuse_ok,
        decide_eq_false_iff_not, ne_eq, not_not, result_pure_ok] at hphysical
      obtain ⟨l, ⟨hl, hact⟩, _, hsource, _, hin, dst, hdst, progress, hprogress, rfl⟩ := hphysical
      obtain ⟨hlm, rfl⟩ := findLocation_mem hl
      obtain ⟨covers, ls, hls, hcovers⟩ := stepProgress_ok hprogress
      have houtside := outside_of_insideOf hr ⟨dst, hdst⟩ hin
      have hs : ActiveAt s step.sourceId := by
        obtain ⟨m, hm, hma, _⟩ := hls.covers step.sourceId ((hcovers _).mpr (.inl rfl))
        exact ⟨m, hm, hma⟩
      refine ⟨_, ?_, .completeContainer hc hl hact htype hid hsource houtside hs
        (hls.entered ((hcovers _).mpr (.inr rfl)))⟩
      have hd1 : Yields (Tidy s) s _ _ := .of_describes hr (describes_location_put hr hl
        [.parentId (some step.destinationId), .updatedAt env.timestamp]
        (apart_location (by simp [LocationEntry.key])))
      have hd := hd1.append (hls.yields_put
        (m := putAll [LocationEntry.parentId (some step.destinationId), .updatedAt env.timestamp] l)
        hd1.unique (fun htidy hin => ?_) rfl)
      · exact hd.append (yields_completion (s := s) hd.unique rfl hp step env.timestamp)
      · rcases (hcovers _).mp hin with he | he
        · exact htidy.acyclic l.id
            (.single ⟨l, hlm, rfl, hsource.trans (congrArg some he.symm)⟩)
        · exact houtside (he ▸ .refl)
    · cases hphysical

/-! ## 6. All of them -/

/-- **An accepted command has one of the effects**, and its patches yield it. -/
theorem normal_effect (hr : UniqueRecords s) (h : normalPatches s env = .ok change) :
    HasEffect s env change := by
  unfold normalPatches at h
  split at h
  · exact workspaceRename_effect hr h
  · exact locationCreate_effect hr h
  · exact locationUpdate_effect hr h
  · exact locationMove_effect hr h
  · exact locationReorder_effect hr h
  · exact locationArchive_effect hr h
  · exact locationDelete_effect hr h
  · exact captureEmpty_effect hr h
  · exact captureStatus_effect hr h
  · exact itemCreate_effect hr h
  · exact itemBulkCreate_effect hr h
  · exact itemUpdate_effect hr h
  · exact itemBulkUpdate_effect hr h
  · exact itemReorder_effect hr h
  · exact itemDelete_effect hr h
  · exact itemMove_effect hr h
  · exact itemBulkMove_effect hr h
  · exact planCreate_effect hr h
  · exact planStepComplete_effect hr h
  · exact planStatus_effect hr h
  all_goals cases h

end Branches

end Stowplan
