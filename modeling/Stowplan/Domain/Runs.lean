/-
  File:      Stowplan/Domain/Runs.lean
  Subject:   THE ENGINE AS A MACHINE: workspaces, accepted commands, and what one accepted
  command does to the record graph.

  * `engine`: empty workspaces, and the steps `applyCommand` accepts;
  * `applyCommand_cases`: an accepted command made an effect, or replayed recorded activities;
  * `effect_wellFormed`: every effect keeps the record graph.
-/
import Stowplan.Domain.Branches
import Stowplan.Lib.Machine

namespace Stowplan

open Keyed Forest Relation

/-! ## 1. The machine -/

/-- `createEmptyState(name, timestamp)`, with the identifier the runtime makes up. -/
def createEmptyState (uuid name timestamp : String) : WorkspaceState where
  activities := []
  audit := []
  commandReceipts := []
  items := []
  locations := []
  plans := []
  workspace := {
    createdAt := timestamp
    id := s!"ws_{uuid}"
    name := name
    revision := 0
    updatedAt := timestamp }

section Engine

variable [Host]

/-- The workspace from its creation on, under any accepted commands. -/
def engine : Machine WorkspaceState CommandEnvelope where
  init s := ∃ uuid name timestamp, s = createEmptyState uuid name timestamp
  step s env t := ∃ r, applyCommand s env = .ok r ∧ r.state = t

/-- The state with its activities and audit extended and its workspace moved on. -/
structure Recorded (s t : WorkspaceState) : Prop where
  items : t.items = s.items
  locations : t.locations = s.locations
  plans : t.plans = s.plans

/-- A replay of recorded activities, with the issues before and after. -/
structure Replayed (s w : WorkspaceState) (env : CommandEnvelope) (direction : Direction)
    (activities : List ActivityRecord) : Prop where
  recorded : ∀ a ∈ activities, a ∈ s.activities
  replay : replayActivities direction env s activities = .ok w
  valid : ∃ before after, validateSnapshot (encode s) = .ok before ∧
    validateSnapshot (encode w) = .ok after ∧
    firstInvalid ((before.filter isBaselineIssue).map issueKey) after = none

/-- What an undo or redo does when it is accepted. -/
theorem applyHistoryAction_ok {s : WorkspaceState} {env : CommandEnvelope} {type : AuditType}
    {activities : List ActivityRecord} {r : CommandResult}
    (h : applyHistoryAction s env type activities = .ok r)
    (hmem : ∀ a ∈ activities, a ∈ s.activities) :
    ∃ w, Replayed s w env type.direction activities ∧ Recorded w r.state := by
  simp only [applyHistoryAction, result_bind_ok] at h
  obtain ⟨before, hbefore, w, hw, after, hafter, h⟩ := h
  split at h
  · simp at h
  · rename_i hvalid
    rw [result_pure_ok] at h
    subst h
    exact ⟨w, ⟨hmem, hw, before, after, hbefore, hafter, hvalid⟩, rfl, rfl, rfl⟩

omit [Host] in
theorem mem_of_mapGet {α : Type} {key : α → String} {id : String} {l : List α} {a : α}
    (h : mapGet key id l = some a) : a ∈ l :=
  List.mem_reverse.mp (List.mem_of_find?_eq_some h)

omit [Host] in

/-- What is redone was undone. -/
theorem mem_chooseUndone {undone chosen : List ActivityRecord} {ids : List String}
    {a : ActivityRecord} (h : a ∈ chooseUndone undone chosen ids) : a ∈ undone ∨ a ∈ chosen := by
  induction ids generalizing chosen with
  | nil => exact .inr h
  | cons id ids ih =>
      simp only [chooseUndone] at h
      split at h
      · rename_i b hb
        split at h
        · exact ih h
        · rcases ih h with h | h
          · exact .inl h
          · rcases List.mem_append.mp h with h | h
            · exact .inr h
            · rw [List.mem_singleton.mp h]
              exact .inl (mem_of_mapGet hb)
      · exact ih h

omit [Host] in
/-- What a batch reapplies was undone. -/
theorem mem_redoable {s : WorkspaceState} {a : ActivityRecord} (h : a ∈ redoable s) :
    a ∈ s.activities ∧ a.status = .undone := by
  have hu : a ∈ s.activities.filter fun a => a.status = .undone := by
    rcases List.mem_append.mp h with h | h
    · rcases mem_chooseUndone h with h | h
      · exact h
      · cases h
    · exact (List.mem_filter.mp h).1
  simpa using hu

omit [Host] in

/-- What is undone was applied. -/
theorem mem_undoable {s : WorkspaceState} {a : ActivityRecord} (h : a ∈ undoable s) :
    a ∈ s.activities ∧ a.status = .applied := by
  simpa [undoable] using h

omit [Host] in
/-- As many as were asked for, and at least one was. -/
theorem take_ne_nil {as : List ActivityRecord} {count : Int} (hc : decide (count < 1) = false)
    (hl : decide (((as.take count.toNat).length : Int) ≠ count) = false) :
    as.take count.toNat ≠ [] := by
  simp only [decide_eq_false_iff_not, not_lt, ne_eq, Decidable.not_not] at hc hl
  intro hnil
  rw [hnil, List.length_nil] at hl
  omega

/-- A history command replays activities that the state has recorded, at least one. -/
theorem applyHistoryCommand_ok {s : WorkspaceState} {env : CommandEnvelope} {r : CommandResult}
    (h : applyHistoryCommand s env = .ok r) :
    ∃ type activities, activities ≠ [] ∧ (∀ a ∈ activities, a ∈ s.activities) ∧
      applyHistoryAction s env type activities = .ok r := by
  unfold applyHistoryCommand at h
  split at h
  · simp only [result_bind_ok, orThrow_ok] at h
    obtain ⟨a, ha, h⟩ := h
    exact ⟨_, _, by simp, by simpa using (findKey_some ha).1, h⟩
  · simp only [result_bind_ok, orThrow_ok] at h
    obtain ⟨a, ha, h⟩ := h
    exact ⟨_, _, by simp, by simpa using (findKey_some ha).1, h⟩
  · simp only [result_bind_ok, refuse_ok] at h
    obtain ⟨_, hc, _, hl, h⟩ := h
    exact ⟨_, _, take_ne_nil hc hl,
      fun a ha => (mem_undoable (List.mem_of_mem_take ha)).1, h⟩
  · simp only [result_bind_ok, refuse_ok] at h
    obtain ⟨_, hc, _, hl, h⟩ := h
    exact ⟨_, _, take_ne_nil hc hl,
      fun a ha => (mem_redoable (List.mem_of_mem_take ha)).1, h⟩
  · cases h

/-- An accepted command passed the checks, and made a change or replayed recorded ones. -/
theorem applyCommand_ok {s : WorkspaceState} {env : CommandEnvelope} {r : CommandResult}
    (h : applyCommand s env = .ok r) :
    checkEnvelope s (normalizeCommandEnvelope env) = .ok () ∧
      ((env.command.isHistory = false ∧
          applyNormalCommand s (normalizeCommandEnvelope env) = .ok r) ∨
        (env.command.isHistory = true ∧ ∃ type activities, activities ≠ [] ∧
          (∀ a ∈ activities, a ∈ s.activities) ∧
          applyHistoryAction s (normalizeCommandEnvelope env) type activities = .ok r)) := by
  simp only [applyCommand, result_bind_ok] at h
  obtain ⟨_, hcheck, h⟩ := h
  refine ⟨hcheck, ?_⟩
  split at h
  · rename_i hh
    exact .inr ⟨hh, applyHistoryCommand_ok h⟩
  · rename_i hh
    exact .inl ⟨Bool.eq_false_iff.mpr hh, h⟩

/-! ## 2. The record graph -/

omit [Host] in
theorem Entered.exists {s : WorkspaceState} {ids : List String} {id : String}
    (h : Entered s ids id) : ∃ m ∈ s.locations, m.id = id := by
  obtain ⟨l, hl, _⟩ := h
  exact ⟨l, findLocation_mem hl⟩

omit [Host] in
theorem Entered.activeAt {s : WorkspaceState} {ids : List String} {id : String}
    (h : Entered s ids id) : ActiveAt s id := by
  obtain ⟨l, hl, ha, _⟩ := h
  exact ⟨l, hl, ha⟩

/-- Moving items keeps the workspace well formed. -/
theorem MoveItems.wellFormed {s t : WorkspaceState} {destinationId timestamp : String}
    {ids : List String} (hw : WellFormed s) (hd : ActiveAt s destinationId)
    (h : MoveItems destinationId timestamp s ids t) : WellFormed t := by
  induction h with
  | nil => exact hw
  | cons hi _ _ h _ ih =>
      refine ih (h.wellFormed hw hi hd) ?_
      rw [h.frame]
      exact hd

/-- So does replacing items by ones that fit. -/
theorem WellFormed.putItems {s : WorkspaceState} (hw : WellFormed s) {is : List ItemRecord}
    (h : ∀ i ∈ is, ItemFits s i) : WellFormed (s.putItems is) := by
  induction is generalizing s with
  | nil => exact hw
  | cons i is ih =>
      refine ih (hw.putItem (h i List.mem_cons_self)) fun j hj => ?_
      obtain ⟨h1, h2, h3⟩ := h j (List.mem_cons_of_mem _ hj)
      exact ⟨h1, h2, h3⟩

/-- **Every effect keeps the record graph.** -/
theorem effect_wellFormed {s t : WorkspaceState} {timestamp : String} (hw : WellFormed s)
    (h : Effect s timestamp t) : WellFormed t := by
  cases h with
  | rename name _ => exact hw.rename name
  | createLocation hid hcode hparent =>
      refine ((hw.addLocation hid (fun p hp => (hparent p hp).exists) fun _ m hm ha => ?_).discardPlans
        _).setProgress _ _
      exact hcode m hm ha
  | changeLocation hl hact hid harch hcap hparent hcode =>
      refine ((hw.putLocation hl hid ?_ fun _ m hm hne ha he => ?_).discardPlans _).setProgress _ _
      · exact hparent.imp id fun h p hp => ⟨(h.2 p hp).1.exists, (h.2 p hp).2⟩
      · rcases hcode with hc | hc
        · exact hne (hw.codes m hm _ (findLocation_mem hl).1 ha hact (he.trans hc))
        · exact hc m hm hne ha he
  | archive hl hact hinside hitems =>
      refine (hw.putLocation_here hl hact ?_ ?_ ?_).discardPlans _ <;> rfl
  | restore hl hcode hparent =>
      refine ((hw.putLocation hl ?_ (.inl ?_) fun _ => ?_).discardPlans _).setProgress _ _
      · rfl
      · rfl
      · exact hcode
  | deleteLocation hl hinside hitems =>
      refine ((hw.dropItems _).dropLocations ?_ ?_).discardPlans _
      · intro m hm hout p hp hin
        obtain ⟨n, hn, rfl⟩ := hw.parents m hm p hp
        exact hout ((hinside m hm).mpr (.head ⟨m, hm, rfl, hp⟩ ((hinside n hn).mp hin)))
      · intro i hi hin
        obtain ⟨hi, hout⟩ := List.mem_filter.mp hi
        exact of_decide_eq_true hout ((hitems i hi).mpr hin)
  | emptyLocation hl hact hchild hitems =>
      refine ((hw.dropItems _).putLocation_here hl hact ?_ ?_ ?_).discardPlans _ <;> rfl
  | markCapture hl hact hempty =>
      refine (hw.putLocation_here hl hact ?_ ?_ ?_).discardPlans _ <;> rfl
  | createItems hn hnew hfits hchanged hentered =>
      exact ((hw.addItems hn hnew hfits).discardPlans _).setProgress _ _
  | changeItems hn hold hfits =>
      refine ((hw.putItems fun i' hi' => ?_).discardPlans _).setProgress _ _
      obtain ⟨i, hi, -⟩ := hold i' hi'
      exact hfits i' hi' i hi (hw.fits (findItem_mem hi).1)
  | deleteItem hi =>
      rw [dropItem_eq]
      exact (hw.dropItems _).discardPlans _
  | moveItems hmoves hentered hdest hsource =>
      exact ((hmoves.wellFormed hw hentered.activeAt).discardPlans _).setProgress _ _
  | createPlan hid hactive hsteps hok =>
      refine (hw.discardPlans _).addPlan ?_
      show findKey _ _ (mapKeys _ _ _ _) = none
      rw [findKey_mapKeys (f := MovePlan.discard) (fun _ => rfl)]
      unfold findPlan at hid
      rw [hid]
      split <;> rfl
  | planStatus hp hne hcomplete hactive => exact hw.putPlan _
  | completeItem hc hi htype hitem hact hsource hquantity hs haway hmove hentered =>
      exact ((hmove.wellFormed hw hi hentered.activeAt).setProgress _ _).putPlan _
  | completeContainer hc hl hact htype hlocation hsource houtside hs hentered =>
      refine ((hw.putLocation hl ?_ (.inr fun p hp => ?_) fun _ m hm hne ha he => ?_).setProgress _
        _).putPlan _
      · rfl
      · cases hp
        exact ⟨hentered.exists, houtside⟩
      · exact hne (hw.codes m hm _ (findLocation_mem hl).1 ha hact he)

end Engine

end Stowplan
