/-
  File:      Stowplan/Domain/Undo.lean
  Subject:   UNDO AND REAPPLY ARE EXACT, whatever happened in between.

  An accepted command is recorded. Any number of accepted commands later, by anybody, its record
  is undone or reapplied. If the engine accepts that, the fields the record names are as they
  were before the command, or after it, and nothing else is touched.

  * `Restored`: what a replay leaves, kind by kind;
  * `restored_of_replay`: one replayed activity;
  * `kept_activity`: a record stays in the history over every run, with its patches;
  * `replay_exact`: undo and reapply, over every run;
  * `toggle_exact`: undo and reapply of one command, as often as it may be.
-/
import Stowplan.Domain.Replay
import Stowplan.Domain.Moves

namespace Stowplan

open Keyed JsValue

/-! ## 1. What a replay leaves -/

/-- `w` has what the patches name as `s` has it, and the rest as `u` has it. -/
structure RestoredKind (ε : Type) {α : Type} [Entity α] [FieldEntry ε α] [RecordKind ε α]
    (ps : List FieldPatch) (s u w : WorkspaceState) : Prop where
  /-- a record put in or taken away is there or not, as a whole -/
  whole : ∀ id, "" ∈ pathsOf ps (RecordKind.kind ε) id →
    SameRecord ε (found ε w id) (found ε s id)
  /-- a named field has the value it has in `s` -/
  named : ∀ (id : String) (e : ε), FieldEntry.key e ∈ pathsOf ps (RecordKind.kind ε) id →
    (found ε w id).map (FieldEntry.here e) = (found ε s id).map (FieldEntry.here e)
  /-- a reading that no named field affects, nor any bookkeeping, is the one of `u` -/
  rest : ∀ id, "" ∉ pathsOf ps (RecordKind.kind ε) id → ∀ (β : Type) (f : α → β), Steady ε f →
    (∀ e : ε, FieldEntry.key e ∈ pathsOf ps (RecordKind.kind ε) id →
      ∀ a, f (FieldEntry.put e a) = f a) →
    (found ε w id).map f = (found ε u id).map f
  /-- a record no patch names is the same, bookkeeping and all -/
  away : ∀ id, pathsOf ps (RecordKind.kind ε) id = [] → found ε w id = found ε u id

/-- The same of all records, and of the name of the workspace. -/
structure Restored (ps : List FieldPatch) (s u w : WorkspaceState) : Prop where
  items : RestoredKind ItemEntry ps s u w
  locations : RestoredKind LocationEntry ps s u w
  plans : RestoredKind PlanEntry ps s u w
  name : (∃ p ∈ ps, p.target = .workspace) → w.workspace.name = s.workspace.name
  nameRest : (∀ p ∈ ps, p.target ≠ .workspace) → w.workspace.name = u.workspace.name

/-- New bookkeeping for records that patches name. -/
structure TouchedKind (ε : Type) {α : Type} [Entity α] [FieldEntry ε α] [RecordKind ε α]
    (ps : List FieldPatch) (v w : WorkspaceState) : Prop where
  same : ∀ id, SameRecord ε (found ε w id) (found ε v id)
  away : ∀ id, pathsOf ps (RecordKind.kind ε) id = [] → found ε w id = found ε v id

section Kinds

variable {ε α : Type} [Entity α] [FieldEntry ε α] [RecordKind ε α]
variable {s t u v w : WorkspaceState} {ps qs : List FieldPatch}

theorem TouchedKind.of_eq (h : RecordKind.records ε w = RecordKind.records ε v) :
    TouchedKind ε ps v w := by
  have he : ∀ id, found ε w id = found ε v id := by
    intro id
    unfold found
    rw [h]
  refine ⟨fun id => ?_, fun id _ => he id⟩
  rw [he]
  exact .refl _

theorem steady_here {e : ε} (he : RecordKind.stamp e = false) :
    Steady ε fun a : α => FieldEntry.here e a :=
  fun s a hs => RecordKind.here_put_stamp s e a hs he

/-- Patches that are all meaningful name no bookkeeping. -/
theorem stamp_of_named {e : ε} {id : String} (hm : meaningfulActivityPatches ps = ps)
    (h : FieldEntry.key e ∈ pathsOf ps (RecordKind.kind ε) id) : RecordKind.stamp e = false := by
  obtain ⟨p, hp, hk, -, hpath⟩ := mem_pathsOf.mp h
  rw [← RecordKind.bookkeeping e p hk hpath]
  rw [← hm] at hp
  simpa using (List.mem_filter.mp hp).2

theorem RestoredKind.touched (h : RestoredKind ε ps s u v) (ht : TouchedKind ε ps v w)
    (hm : meaningfulActivityPatches ps = ps) : RestoredKind ε ps s u w where
  whole id hid := (ht.same id).trans (h.whole id hid)
  named id e he :=
    (ht.same id _ _ (steady_here (stamp_of_named hm he))).trans (h.named id e he)
  rest id hid β f hf hn := (ht.same id β f hf).trans (h.rest id hid β f hf hn)
  away id hid := (ht.away id hid).trans (h.away id hid)

/-- Patches that name the same. -/
def SameNames (ps qs : List FieldPatch) : Prop :=
  ∀ P : PatchTarget → String → String → Prop,
    (∃ p ∈ ps, P p.target p.id p.path) ↔ ∃ p ∈ qs, P p.target p.id p.path

theorem SameNames.paths (h : SameNames ps qs) {kind : PatchTarget} {id path : String} :
    path ∈ pathsOf ps kind id ↔ path ∈ pathsOf qs kind id := by
  rw [mem_pathsOf, mem_pathsOf]
  exact h fun k i p => k = kind ∧ i = id ∧ p = path

/-- Two readings of a field that show the same are the same. -/
theorem here_of_look {e : ε} {a b : Option α} (h : look e a = look e b) :
    a.map (FieldEntry.here e) = b.map (FieldEntry.here e) := by
  cases a with
  | none =>
      cases b with
      | none => rfl
      | some b => cases h
  | some a =>
      cases b with
      | none => cases h
      | some b => exact congrArg some (here_of_value (Option.some.inj h))

/-- **The patches of a change, replayed on another state**, one kind of record. -/
theorem restoredKind_of_trails (hx : Trail (ChangesKind ε) s ps t)
    (hu : Trail (ChangesKind ε) u (meaningfulActivityPatches ps) v)
    (hn : SameNames (meaningfulActivityPatches ps) qs) (hm : meaningfulActivityPatches qs = qs) :
    RestoredKind ε qs t u v where
  whole id hid := (hx.same hu (.inr (hn.paths.mpr hid))).symm
  named id e he := here_of_look (hx.agree hu (stamp_of_named hm he) (.inr (hn.paths.mpr he))).symm
  rest id hid β f _ hf :=
    hu.rest (fun h => hid (hn.paths.mp h)) fun e he => hf e (hn.paths.mp he)
  away id hid := by
    refine hu.away (List.eq_nil_iff_forall_not_mem.mpr fun path hp => ?_)
    have := hn.paths.mp hp
    rw [hid] at this
    cases this

end Kinds

/-! ## 2. New timestamps -/

/-- One record more has another stamp. -/
theorem touched_setFirst {ε α : Type} [Entity α] [FieldEntry ε α] [RecordKind ε α]
    {key : α → String} {records next : List α} {k id : String} {ids : List String} {a b : α}
    (ha : findKey key k records = some a) (hb : key b = k) (hs : SameRecord ε (some b) (some a))
    (h : SameRecord ε (findKey key id next) (findKey key id (setFirst key k b records)) ∧
      (id ∉ ids → findKey key id next = findKey key id (setFirst key k b records))) :
    SameRecord ε (findKey key id next) (findKey key id records) ∧
      (id ∉ k :: ids → findKey key id next = findKey key id records) := by
  obtain ⟨hmem, hid⟩ := findKey_some ha
  have hset := findKey_setFirst hb (List.mem_map.mpr ⟨a, hmem, hid⟩) id
  rw [hset] at h
  refine ⟨h.1.trans ?_, fun hn => ?_⟩
  · split
    · rename_i hk
      rw [hk, ha]
      exact hs
    · exact .refl _
  · have hne : id ≠ k := fun hk => hn (hk ▸ List.mem_cons_self)
    rw [h.2 fun hin => hn (List.mem_cons_of_mem _ hin), if_neg hne]

theorem touchItems_found {timestamp : String} {items next : List ItemRecord} {ids : List String}
    (h : touchItems timestamp items ids = .ok next) (id : String) :
    SameRecord ItemEntry (findKey ItemRecord.id id next) (findKey ItemRecord.id id items) ∧
      (id ∉ ids → findKey ItemRecord.id id next = findKey ItemRecord.id id items) := by
  induction ids generalizing items with
  | nil =>
      cases h
      exact ⟨.refl _, fun _ => rfl⟩
  | cons k ids ih =>
      unfold touchItems at h
      split at h
      · obtain ⟨hs, he⟩ := ih h
        exact ⟨hs, fun hn => he fun hin => hn (List.mem_cons_of_mem _ hin)⟩
      · rename_i item hitem
        rw [result_bind_ok] at h
        obtain ⟨version, -, h⟩ := h
        refine touched_setFirst (b := { item with version, updatedAt := timestamp }) hitem
          (findKey_some hitem).2 (fun β f hf => ?_) (ih h)
        exact congrArg some ((hf (.version version) { item with updatedAt := timestamp }
          rfl).trans (hf (.updatedAt timestamp) item rfl))

theorem touchLocations_found (timestamp : String) (locations : List Location)
    (ids : List String) (id : String) :
    SameRecord LocationEntry (findKey Location.id id (touchLocations timestamp locations ids))
        (findKey Location.id id locations) ∧
      (id ∉ ids → findKey Location.id id (touchLocations timestamp locations ids) =
        findKey Location.id id locations) := by
  induction ids generalizing locations with
  | nil => exact ⟨.refl _, fun _ => rfl⟩
  | cons k ids ih =>
      unfold touchLocations
      split
      · obtain ⟨hs, he⟩ := ih locations
        exact ⟨hs, fun hn => he fun hin => hn (List.mem_cons_of_mem _ hin)⟩
      · rename_i location hlocation
        refine touched_setFirst (b := { location with updatedAt := timestamp }) hlocation
          (findKey_some hlocation).2 (fun β f hf => ?_) (ih _)
        exact congrArg some (hf (.updatedAt timestamp) location rfl)

/-- A record that is touched is one that a patch names. -/
theorem notMem_touchedIds {ps : List FieldPatch} {kind : PatchTarget} {id : String}
    (h : pathsOf ps kind id = []) : id ∉ touchedIds kind ps := by
  intro hin
  unfold touchedIds at hin
  rw [mem_uniq] at hin
  obtain ⟨p, hp, rfl⟩ := List.mem_map.mp hin
  obtain ⟨hp, hk⟩ := List.mem_filter.mp hp
  have hk : p.path ≠ "" ∧ p.target = kind := by simpa using hk
  have : p.path ∈ pathsOf ps kind p.id := mem_pathsOf.mpr ⟨p, hp, hk.2, rfl, rfl⟩
  rw [h] at this
  cases this

/-! ## 3. One activity -/

section Activity

variable {direction : Direction} {env : CommandEnvelope} {a : ActivityRecord}
variable {x y u w : WorkspaceState} {ps : List FieldPatch}

/-- What one replayed activity is: its patches made, then new bookkeeping, and its status. -/
structure ReplayMade (direction : Direction) (env : CommandEnvelope) (a : ActivityRecord)
    (ps : List FieldPatch) (u v w : WorkspaceState) : Prop where
  status : a.status = direction.expects
  trace : Trace u (meaningfulActivityPatches ps) v
  items : TouchedKind ItemEntry a.patches v w
  locations : TouchedKind LocationEntry a.patches v w
  plans : TouchedKind PlanEntry a.patches v w
  workspace : w.workspace = v.workspace
  activities : w.activities = markActivity direction env.timestamp a.id u.activities

theorem replayMade_of_replay (hx : Trace x ps y)
    (hps : replayPatches direction a.patches = meaningfulActivityPatches ps)
    (hm : meaningfulActivityPatches a.patches = a.patches) (hu : Unique u)
    (h : replayActivity direction env u a = .ok w) :
    ∃ v, ReplayMade direction env a ps u v w := by
  simp only [replayActivity, historyConflicts, touchHistoryRecords, result_bind_ok,
    result_pure_ok, refuse_ok, decide_eq_false_iff_not, not_not] at h
  obtain ⟨_, hstatus, conflicts, hscan, _, hnone, v, hv, _, ⟨items, hitems, rfl⟩, rfl⟩ := h
  have hempty : conflicts = [] := by
    cases conflicts with
    | nil => rfl
    | cons c cs => cases hnone
  rw [hps] at hscan hv
  rw [hempty] at hscan
  rw [hm] at hitems
  refine ⟨v, hstatus, (trace_of_loop hx hu hscan hv).1, ⟨fun id => ?_, fun id hid => ?_⟩,
    ⟨fun id => ?_, fun id hid => ?_⟩, .of_eq rfl, rfl, ?_⟩
  · exact (touchItems_found hitems id).1
  · exact (touchItems_found hitems id).2 (notMem_touchedIds hid)
  · exact (touchLocations_found _ _ _ id).1
  · rw [hm]
    exact (touchLocations_found _ _ _ id).2 (notMem_touchedIds hid)
  · show markActivity _ _ _ v.activities = _
    rw [(applyPatches_unrecorded hv).1]

/-- **One replayed activity** restores what its patches name and touches nothing else. -/
theorem restored_of_replay (hx : Trace x ps y)
    (hps : replayPatches direction a.patches = meaningfulActivityPatches ps)
    (hn : SameNames (meaningfulActivityPatches ps) a.patches)
    (hm : meaningfulActivityPatches a.patches = a.patches) (hu : Unique u)
    (h : replayActivity direction env u a = .ok w) : Restored a.patches y u w := by
  obtain ⟨v, hmade⟩ := replayMade_of_replay hx hps hm hu h
  have hitem := restoredKind_of_trails (hx.imp fun _ _ _ h => h.items)
    (hmade.trace.imp fun _ _ _ h => h.items) hn hm
  have hlocation := restoredKind_of_trails (hx.imp fun _ _ _ h => h.locations)
    (hmade.trace.imp fun _ _ _ h => h.locations) hn hm
  have hplan := restoredKind_of_trails (hx.imp fun _ _ _ h => h.plans)
    (hmade.trace.imp fun _ _ _ h => h.plans) hn hm
  have hname := hx.imp fun _ _ _ h => h.name
  have hname' := hmade.trace.imp fun _ _ _ h => h.name
  refine ⟨hitem.touched hmade.items hm, hlocation.touched hmade.locations hm,
    hplan.touched hmade.plans hm, fun hex => ?_, fun hne => ?_⟩
  · rw [hmade.workspace]
    exact (hname.name hname' (.inr ((hn fun k _ _ => k = .workspace).mpr hex))).symm
  · rw [hmade.workspace]
    refine hname'.name_rest fun p hp hk => ?_
    obtain ⟨q, hq, hqk⟩ := (hn fun k _ _ => k = .workspace).mp ⟨p, hp, hk⟩
    exact hne q hq hqk

/-- The same records but for bookkeeping, and the same name. -/
structure SameContent (s t : WorkspaceState) : Prop where
  items : ∀ id, SameRecord ItemEntry (found ItemEntry s id) (found ItemEntry t id)
  locations : ∀ id,
    SameRecord LocationEntry (found LocationEntry s id) (found LocationEntry t id)
  plans : ∀ id, SameRecord PlanEntry (found PlanEntry s id) (found PlanEntry t id)
  name : s.workspace.name = t.workspace.name

/-- **Replayed where it started, a change ends where it went.** -/
theorem content_of_made {v : WorkspaceState} (hx : Trace x ps y)
    (h : ReplayMade direction env a ps u v w) (hs : SameContent x u) : SameContent y w where
  items id := ((hx.imp fun _ _ _ h => h.items).same (h.trace.imp fun _ _ _ h => h.items)
    (.inl (hs.items id))).trans (h.items.same id).symm
  locations id := ((hx.imp fun _ _ _ h => h.locations).same
    (h.trace.imp fun _ _ _ h => h.locations) (.inl (hs.locations id))).trans
    (h.locations.same id).symm
  plans id := ((hx.imp fun _ _ _ h => h.plans).same (h.trace.imp fun _ _ _ h => h.plans)
    (.inl (hs.plans id))).trans (h.plans.same id).symm
  name := by
    rw [h.workspace]
    exact (hx.imp fun _ _ _ h => h.name).name (h.trace.imp fun _ _ _ h => h.name) (.inl hs.name)

/-- The activity has the other status then. -/
theorem found_marked {timestamp : String} {as : List ActivityRecord}
    (h : findKey ActivityRecord.id a.id as = some a) :
    ∃ b, findKey ActivityRecord.id a.id (markActivity direction timestamp a.id as) = some b ∧
      b.id = a.id ∧ b.patches = a.patches ∧ b.status = direction.leaves := by
  unfold markActivity
  rw [h]
  have hin : a.id ∈ as.map ActivityRecord.id := List.mem_map_of_mem (findKey_some h).1
  exact ⟨_, (findKey_setFirst (by rfl) hin a.id).trans (if_pos rfl), rfl, rfl, rfl⟩

theorem meaningful_meaningful (ps : List FieldPatch) :
    meaningfulActivityPatches (meaningfulActivityPatches ps) = meaningfulActivityPatches ps := by
  unfold meaningfulActivityPatches
  rw [List.filter_filter]
  simp

theorem meaningful_reverse (ps : List FieldPatch) :
    meaningfulActivityPatches (reversePatches ps) =
      reversePatches (meaningfulActivityPatches ps) := by
  unfold meaningfulActivityPatches reversePatches
  rw [List.filter_map, List.filter_reverse]
  rfl

theorem sameNames_refl (ps : List FieldPatch) : SameNames ps ps := fun _ => Iff.rfl

theorem sameNames_reverse (ps : List FieldPatch) : SameNames (reversePatches ps) ps := by
  intro P
  constructor
  · intro h
    obtain ⟨p, hp, hP⟩ := h
    obtain ⟨q, hq, rfl⟩ := List.mem_map.mp hp
    exact ⟨q, List.mem_reverse.mp hq, hP⟩
  · intro h
    obtain ⟨p, hp, hP⟩ := h
    exact ⟨reversePatch p, List.mem_map_of_mem (List.mem_reverse.mpr hp), hP⟩

section Recorded

variable (ha : a.patches = meaningfulActivityPatches ps)
include ha

theorem meaningful_recorded : meaningfulActivityPatches a.patches = a.patches := by
  rw [ha, meaningful_meaningful]

theorem undo_recorded :
    replayPatches .undo a.patches = meaningfulActivityPatches (reversePatches ps) := by
  rw [ha, meaningful_reverse]
  exact congrArg reversePatches (meaningful_meaningful ps)

/-- What a redo replays is what the command did. -/
theorem reapply_recorded : replayPatches .reapply a.patches = meaningfulActivityPatches ps := by
  rw [ha]
  exact meaningful_meaningful ps

/-- The activity of a change undone. -/
theorem restored_of_undo (hx : Trace x ps y) (hu : Unique u)
    (h : replayActivity .undo env u a = .ok w) : Restored a.patches x u w := by
  refine restored_of_replay (hx.reverse fun _ _ _ => ChangesState.turn) (undo_recorded ha) ?_
    (meaningful_recorded ha) hu h
  rw [ha, meaningful_reverse]
  exact sameNames_reverse _

/-- The activity of a change made again. -/
theorem restored_of_reapply (hx : Trace x ps y) (hu : Unique u)
    (h : replayActivity .reapply env u a = .ok w) : Restored a.patches y u w := by
  refine restored_of_replay hx (reapply_recorded ha) ?_ (meaningful_recorded ha) hu h
  rw [ha]
  exact sameNames_refl _

end Recorded

end Activity

/-! ## 4. Over a run -/

section Engine

variable [Host] {s t u : WorkspaceState} {env : CommandEnvelope} {r : CommandResult}

omit [Host] in
/-- Where the history is the same, an identifier finds the same patches. -/
theorem found_activity {as bs : List ActivityRecord} (h : historyOf as = historyOf bs)
    {id : String} {b : ActivityRecord} (hb : findKey ActivityRecord.id id bs = some b) :
    ∃ a, findKey ActivityRecord.id id as = some a ∧ a.patches = b.patches := by
  have hkey : ∀ cs : List ActivityRecord,
      findKey (fun x : String × String × List FieldPatch => x.1) id (historyOf cs) =
        (findKey ActivityRecord.id id cs).map fun a => (a.id, a.commandId, a.patches) :=
    fun cs => findKey_map (f := fun a : ActivityRecord => (a.id, a.commandId, a.patches))
      (fun _ => rfl) id cs
  have he := (hkey as).symm.trans ((congrArg _ h).trans (hkey bs))
  rw [hb] at he
  obtain ⟨a, ha, hab⟩ := Option.map_eq_some_iff.mp he
  exact ⟨a, ha, congrArg (fun x => x.2.2) hab⟩

/-- **A recorded change stays in the history**, with its patches. -/
theorem kept_activity {as : List CommandEnvelope} (hrun : engine.Run t as u) {id : String}
    {ps : List FieldPatch}
    (h : ∃ a, findKey ActivityRecord.id id t.activities = some a ∧ a.patches = ps) :
    ∃ a, findKey ActivityRecord.id id u.activities = some a ∧ a.patches = ps := by
  refine hrun.invariant (P := fun v => ∃ a, findKey ActivityRecord.id id v.activities = some a ∧
    a.patches = ps) ?_ h
  intro v env v' hv hstep
  obtain ⟨b, hb, hpatches⟩ := hv
  obtain ⟨r, hr, rfl⟩ := hstep
  cases (applyCommand_logged hr).2 with
  | activity a _ _ _ ha _ _ =>
      refine ⟨b, ?_, hpatches⟩
      rw [ha, findKey_append, hb]
      rfl
  | audit e _ _ _ ha _ _ _ =>
      obtain ⟨c, hc, hsame⟩ := found_activity ha hb
      exact ⟨c, hc, hsame.trans hpatches⟩

/-- The same records and the same name. -/
structure SameShown (s t : WorkspaceState) : Prop where
  items : t.items = s.items
  locations : t.locations = s.locations
  plans : t.plans = s.plans
  name : t.workspace.name = s.workspace.name

omit [Host] in
theorem RestoredKind.of_eq {ε α : Type} [Entity α] [FieldEntry ε α] [RecordKind ε α]
    {ps : List FieldPatch} {s s' u w w' : WorkspaceState} (h : RestoredKind ε ps s u w)
    (hs : RecordKind.records ε s' = RecordKind.records ε s)
    (hw : RecordKind.records ε w' = RecordKind.records ε w) : RestoredKind ε ps s' u w' := by
  have hs : ∀ id, found ε s' id = found ε s id := fun id => by
    unfold found
    rw [hs]
  have hw : ∀ id, found ε w' id = found ε w id := fun id => by
    unfold found
    rw [hw]
  refine ⟨fun id hid => ?_, fun id e he => ?_, fun id hid β f hf hn => ?_, fun id hid => ?_⟩
  · rw [hs, hw]
    exact h.whole id hid
  · rw [hs, hw]
    exact h.named id e he
  · rw [hw]
    exact h.rest id hid β f hf hn
  · rw [hw]
    exact h.away id hid

omit [Host] in
theorem Restored.of_same {ps : List FieldPatch} {s s' u w w' : WorkspaceState}
    (h : Restored ps s u w) (hs : SameShown s s') (hw : SameShown w w') :
    Restored ps s' u w' where
  items := h.items.of_eq hs.items hw.items
  locations := h.locations.of_eq hs.locations hw.locations
  plans := h.plans.of_eq hs.plans hw.plans
  name hex := hw.name.trans ((h.name hex).trans hs.name.symm)
  nameRest hne := hw.name.trans (h.nameRest hne)

/-- What an accepted command that records an activity has done. -/
theorem trace_of_activity (hw : WellFormed s) (h : applyCommand s env = .ok r)
    {a : ActivityRecord} (ha : r.activity = some a) :
    ∃ ps t, a.patches = meaningfulActivityPatches ps ∧ a.status = .applied ∧ Trace s ps t ∧
      SameShown t r.state ∧ r.state.activities = s.activities ++ [a] := by
  have hlog := (applyCommand_logged h).2
  obtain ⟨-, ⟨-, h⟩ | ⟨-, type, as, -, -, h⟩⟩ := applyCommand_ok h
  · obtain ⟨change, t, hchange, hdesc, -, he⟩ := applyNormalCommand_ok hw h
    have hact : r.activity = some (activityOf (normalizeCommandEnvelope env) change) := by
      simp only [applyNormalCommand, result_bind_ok, result_pure_ok] at h
      obtain ⟨change', hchange', v, -, rfl⟩ := h
      rw [Except.ok.inj (hchange.symm.trans hchange')]
    obtain rfl := Option.some.inj (ha.symm.trans hact)
    refine ⟨change.patches, t, rfl, rfl, trace_of_describes hdesc, ?_, ?_⟩
    · rw [he]
      exact ⟨rfl, rfl, rfl, rfl⟩
    · cases hlog with
      | activity b hb _ _ hb' _ _ => rw [hb', Option.some.inj (hb.symm.trans ha)]
      | audit e _ hn _ _ _ _ _ =>
          rw [ha] at hn
          cases hn
  · simp only [applyHistoryAction, result_bind_ok] at h
    obtain ⟨_, -, w, -, _, -, h⟩ := h
    split at h
    · simp at h
    · rw [result_pure_ok] at h
      subst h
      cases ha

omit [Host] in
/-- The activity an accepted command has recorded is the one its identifier finds. -/
theorem found_recorded {as : List ActivityRecord} {a : ActivityRecord}
    (hnew : ∀ b ∈ as, b.id ≠ a.id) : findKey ActivityRecord.id a.id (as ++ [a]) = some a := by
  rw [findKey_append, findKey_eq_none.mpr hnew, findKey_cons, if_pos rfl]
  rfl

/-- The replay an accepted history command has made. -/
structure ReplayAccepted (direction : Direction) (env : CommandEnvelope) (b : ActivityRecord)
    (u w t : WorkspaceState) : Prop where
  replay : replayActivity direction (normalizeCommandEnvelope env) u b = .ok w
  shown : SameShown w t
  activities : t.activities = w.activities

/-- An undo or redo that is accepted replays its activity. -/
theorem accepted_of_action {type : AuditType} {b : ActivityRecord}
    (h : applyHistoryAction s (normalizeCommandEnvelope env) type [b] = .ok r) :
    ∃ w, ReplayAccepted type.direction env b s w r.state := by
  simp only [applyHistoryAction, replayActivities, result_bind_ok] at h
  obtain ⟨_, -, w, ⟨v, hv, hw⟩, _, -, h⟩ := h
  cases hw
  split at h
  · simp at h
  · rw [result_pure_ok] at h
    subst h
    exact ⟨w, hv, ⟨rfl, rfl, rfl, rfl⟩, rfl⟩

/-- So does `history.undo`. -/
theorem accepted_of_undo {b : ActivityRecord} {id : String} (h : applyCommand s env = .ok r)
    (hc : env.command = .historyUndo id)
    (hb : findKey ActivityRecord.id id s.activities = some b) :
    ∃ w, ReplayAccepted .undo env b s w r.state := by
  have hcommand : (normalizeCommandEnvelope env).command = env.command := rfl
  simp only [applyCommand, result_bind_ok, hcommand, hc, Command.isHistory, if_true,
    applyHistoryCommand, hb, orThrow_ok] at h
  obtain ⟨_, -, c, hcb, h⟩ := h
  cases hcb
  exact accepted_of_action h

/-- So does `history.reapply`. -/
theorem accepted_of_reapply {b : ActivityRecord} {id : String} (h : applyCommand s env = .ok r)
    (hc : env.command = .historyReapply id)
    (hb : findKey ActivityRecord.id id s.activities = some b) :
    ∃ w, ReplayAccepted .reapply env b s w r.state := by
  have hcommand : (normalizeCommandEnvelope env).command = env.command := rfl
  simp only [applyCommand, result_bind_ok, hcommand, hc, Command.isHistory, if_true,
    applyHistoryCommand, hb, orThrow_ok] at h
  obtain ⟨_, -, c, hcb, h⟩ := h
  cases hcb
  exact accepted_of_action h

/-- **Undo and reapply are exact.** Let a command be accepted and recorded. After any number of
    accepted commands, let its record be undone, or reapplied, and accepted. Then

    * every field the record names reads as before the command, or as after it;
    * a record the command put in or took away is gone, or back with all its fields;
    * nothing else has changed, whatever happened to the workspace in between: no other field of
      the same records but their timestamps and versions, and no other record at all. -/
theorem replay_exact (s : WorkspaceState) (env : CommandEnvelope) (r : CommandResult)
    (a : ActivityRecord) (hw : WellFormed s) (h : applyCommand s env = .ok r)
    (ha : r.activity = some a) (hnew : ∀ b ∈ s.activities, b.id ≠ a.id)
    (u : WorkspaceState) (commands : List CommandEnvelope) (hrun : engine.Run r.state commands u)
    (env' : CommandEnvelope) (r' : CommandResult) (h' : applyCommand u env' = .ok r') :
    (env'.command = .historyUndo a.id → Restored a.patches s u r'.state) ∧
    (env'.command = .historyReapply a.id → Restored a.patches r.state u r'.state) := by
  obtain ⟨ps, t, hps, -, htrace, hshown, hacts⟩ := trace_of_activity hw h ha
  have hwu : WellFormed u :=
    hrun.invariant (fun _ _ _ => step_wellFormed) (step_wellFormed hw ⟨r, h, rfl⟩)
  have hrecorded : findKey ActivityRecord.id a.id r.state.activities = some a := by
    rw [hacts]
    exact found_recorded hnew
  obtain ⟨b, hb, hpatches⟩ := kept_activity hrun ⟨a, hrecorded, rfl⟩
  rw [← hpatches]
  refine ⟨fun hc => ?_, fun hc => ?_⟩
  · obtain ⟨w, hw'⟩ := accepted_of_undo h' hc hb
    exact (restored_of_undo (hpatches.trans hps) htrace hwu.unique hw'.replay).of_same
      ⟨rfl, rfl, rfl, rfl⟩ hw'.shown
  · obtain ⟨w, hw'⟩ := accepted_of_reapply h' hc hb
    exact (restored_of_reapply (hpatches.trans hps) htrace hwu.unique hw'.replay).of_same
      hshown hw'.shown

/-! ## 5. Back and forth -/

omit [Host] in

/-- States that show the same have the same content. -/
theorem SameContent.of_shown {x y w : WorkspaceState} (h : SameContent x y)
    (hw : SameShown y w) : SameContent x w where
  items id := by
    have : found ItemEntry w id = found ItemEntry y id := congrArg (findKey _ id) hw.items
    rw [this]
    exact h.items id
  locations id := by
    have : found LocationEntry w id = found LocationEntry y id :=
      congrArg (findKey _ id) hw.locations
    rw [this]
    exact h.locations id
  plans id := by
    have : found PlanEntry w id = found PlanEntry y id := congrArg (findKey _ id) hw.plans
    rw [this]
    exact h.plans id
  name := h.name.trans hw.name.symm

omit [Host] in
theorem SameContent.symm {x y : WorkspaceState} (h : SameContent x y) : SameContent y x :=
  ⟨fun id => (h.items id).symm, fun id => (h.locations id).symm, fun id => (h.plans id).symm,
    h.name.symm⟩

omit [Host] in
theorem SameContent.refl (s : WorkspaceState) : SameContent s s :=
  ⟨fun _ => .refl _, fun _ => .refl _, fun _ => .refl _, rfl⟩

/-- After `n` undos and reapplications of a change from `s` to `t`. -/
structure Toggled (s t : WorkspaceState) (a : ActivityRecord) (n : Nat) (v : WorkspaceState) :
    Prop where
  recorded : ∃ b, findKey ActivityRecord.id a.id v.activities = some b ∧ b.id = a.id ∧
    b.patches = a.patches ∧ b.status = if n % 2 = 0 then .applied else .undone
  even : n % 2 = 0 → SameContent t v
  odd : n % 2 = 1 → SameContent s v

/-- **One more of them** turns the change over. -/
theorem Toggled.step {a : ActivityRecord} {n : Nat} {v : WorkspaceState} {ps : List FieldPatch}
    (htrace : Trace s ps t) (hps : a.patches = meaningfulActivityPatches ps) (hu : Unique v)
    (h : Toggled s t a n v)
    (hc : env.command = .historyUndo a.id ∨ env.command = .historyReapply a.id)
    (hr : applyCommand v env = .ok r) : Toggled s t a (n + 1) r.state := by
  obtain ⟨b, hb, hid, hpatches, hstatus⟩ := h.recorded
  have hbps := hpatches.trans hps
  rcases hc with hc | hc
  · obtain ⟨w, hw⟩ := accepted_of_undo hr hc hb
    obtain ⟨m, hm⟩ := replayMade_of_replay (htrace.reverse fun _ _ _ => ChangesState.turn)
      (undo_recorded hbps) (meaningful_recorded hbps) hu hw.replay
    -- only an applied change is undone
    have heven : n % 2 = 0 := by
      by_contra hn
      have := hm.status
      rw [hstatus, if_neg hn] at this
      cases this
    have hcontent := (content_of_made (htrace.reverse fun _ _ _ => ChangesState.turn) hm
      (h.even heven)).of_shown hw.shown
    refine ⟨?_, fun hn => by omega, fun _ => hcontent⟩
    rw [← hid] at hb
    obtain ⟨c, hc, hcid, hcp, hcs⟩ := found_marked hb
    rw [hw.activities, hm.activities, ← hid]
    refine ⟨c, hc, hcid, hcp.trans hpatches, ?_⟩
    rw [hcs, if_neg (by omega)]
    rfl
  · obtain ⟨w, hw⟩ := accepted_of_reapply hr hc hb
    obtain ⟨m, hm⟩ := replayMade_of_replay htrace (reapply_recorded hbps)
      (meaningful_recorded hbps) hu hw.replay
    have hodd : n % 2 = 1 := by
      by_contra hn
      have hzero : n % 2 = 0 := by omega
      have := hm.status
      rw [hstatus, if_pos hzero] at this
      cases this
    have hcontent := (content_of_made htrace hm (h.odd hodd)).of_shown hw.shown
    refine ⟨?_, fun _ => hcontent, fun hn => by omega⟩
    rw [← hid] at hb
    obtain ⟨c, hc, hcid, hcp, hcs⟩ := found_marked hb
    rw [hw.activities, hm.activities, ← hid]
    refine ⟨c, hc, hcid, hcp.trans hpatches, ?_⟩
    rw [hcs, if_pos (by omega)]
    rfl

/-- Any number of them. -/
theorem Toggled.run {a : ActivityRecord} {ps : List FieldPatch} {t₀ v : WorkspaceState}
    (htrace : Trace s ps t) (hps : a.patches = meaningfulActivityPatches ps)
    (hw : WellFormed t₀) (h : Toggled s t a 0 t₀) {commands : List CommandEnvelope}
    (hc : ∀ c ∈ commands,
      c.command = .historyUndo a.id ∨ c.command = .historyReapply a.id)
    (hrun : engine.Run t₀ commands v) : Toggled s t a commands.length v := by
  induction hrun with
  | nil => exact h
  | @snoc v v' cs c hrun hstep ih =>
      have hv : WellFormed v := hrun.invariant (fun _ _ _ => step_wellFormed) hw
      have hbefore := ih fun d hd => hc d (List.mem_append_left _ hd)
      obtain ⟨r, hr, rfl⟩ := hstep
      rw [List.length_append]
      exact hbefore.step htrace hps hv.unique
        (hc c (List.mem_append_right _ (List.mem_singleton_self c))) hr

/-- **Back and forth.** Undo and reapply what an accepted command has done, as often as the engine
    accepts it: after an even number of times every record is as the command left it, and after
    an odd number as it was before the command, with all its fields but timestamps and
    versions; and so is the name of the workspace. -/
theorem toggle_exact (s : WorkspaceState) (env : CommandEnvelope) (r : CommandResult)
    (a : ActivityRecord) (hw : WellFormed s) (h : applyCommand s env = .ok r)
    (ha : r.activity = some a) (hnew : ∀ b ∈ s.activities, b.id ≠ a.id)
    (commands : List CommandEnvelope)
    (hc : ∀ c ∈ commands, c.command = .historyUndo a.id ∨ c.command = .historyReapply a.id)
    (v : WorkspaceState) (hrun : engine.Run r.state commands v) :
    (commands.length % 2 = 0 → SameContent r.state v) ∧
    (commands.length % 2 = 1 → SameContent s v) := by
  obtain ⟨ps, t, hps, hstatus, htrace, hshown, hacts⟩ := trace_of_activity hw h ha
  have hstart : Toggled s t a 0 r.state := by
    refine ⟨⟨a, ?_, rfl, rfl, hstatus⟩, fun _ => (SameContent.refl t).of_shown hshown,
      fun hn => by omega⟩
    rw [hacts]
    exact found_recorded hnew
  have hend := hstart.run htrace hps (step_wellFormed hw ⟨r, h, rfl⟩) hc hrun
  refine ⟨fun hn => ?_, hend.odd⟩
  exact ((hend.even hn).symm.of_shown hshown).symm

end Engine

/-! ## 6. The lamps go back -/

/-- The home gets another name while the lamps are in their new box. -/
def nameLoft : CommandEnvelope := firstEnvelope "c2" (.workspaceRename "Loft")

theorem undoLamps_accepted :
    (@applyCommand asciiHost boxesState moveLamps >>= fun r =>
      @applyCommand asciiHost r.state nameLoft >>= fun q =>
        @applyCommand asciiHost q.state undoLamps).isOk = true := by
  decide +kernel

theorem moveLamps_recorded :
    ((@applyCommand asciiHost boxesState moveLamps).toOption.bind (·.activity)).map (·.id) =
      some "activity_c1" := by
  decide +kernel

theorem replay_exact_lamps : ∃ (a : ActivityRecord) (q : WorkspaceState) (r : CommandResult),
    @applyCommand asciiHost q undoLamps = .ok r ∧
      Restored a.patches boxesState q r.state := by
  let : Host := asciiHost
  obtain ⟨r', hr'⟩ := exists_of_isOk undoLamps_accepted
  simp only [result_bind_ok] at hr'
  obtain ⟨r, hr, q, hq, hr'⟩ := hr'
  have hid := moveLamps_recorded
  rw [hr] at hid
  obtain ⟨a, ha, hid⟩ := Option.map_eq_some_iff.mp hid
  have hrun : engine.Run r.state [nameLoft] q.state := .single ⟨q, hq, rfl⟩
  refine ⟨a, q.state, r', hr', (replay_exact boxesState moveLamps r a boxesState_wellFormed hr ha
    (fun b hb => absurd hb List.not_mem_nil) q.state [nameLoft] hrun undoLamps r' hr').1 ?_⟩
  rw [hid]
  rfl

/-- The lamps go back, and to the new box again. -/
def redoLamps : CommandEnvelope := firstEnvelope "c4" (.historyReapply "activity_c1")

theorem redoLamps_accepted :
    (@applyCommand asciiHost boxesState moveLamps >>= fun r =>
      @applyCommand asciiHost r.state undoLamps >>= fun q =>
        @applyCommand asciiHost q.state redoLamps).isOk = true := by
  decide +kernel

theorem toggle_exact_lamps : ∃ r q p : CommandResult,
    @applyCommand asciiHost boxesState moveLamps = .ok r ∧
      @applyCommand asciiHost r.state undoLamps = .ok q ∧
      @applyCommand asciiHost q.state redoLamps = .ok p ∧ SameContent r.state p.state := by
  let : Host := asciiHost
  obtain ⟨p, hp⟩ := exists_of_isOk redoLamps_accepted
  simp only [result_bind_ok] at hp
  obtain ⟨r, hr, q, hq, hp⟩ := hp
  have hid := moveLamps_recorded
  rw [hr] at hid
  obtain ⟨a, ha, hid⟩ := Option.map_eq_some_iff.mp hid
  have hrun : engine.Run r.state [undoLamps, redoLamps] p.state :=
    .cons ⟨q, hq, rfl⟩ (.single ⟨p, hp, rfl⟩)
  refine ⟨r, q, p, hr, hq, hp, (toggle_exact boxesState moveLamps r a boxesState_wellFormed hr
    ha (fun b hb => absurd hb List.not_mem_nil) [undoLamps, redoLamps] (fun c hc => ?_) p.state
    hrun).1 rfl⟩
  rw [hid]
  rcases List.mem_pair.mp hc with rfl | rfl
  · exact .inl rfl
  · exact .inr rfl

end Stowplan
