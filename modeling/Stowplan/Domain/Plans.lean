/-
  File:      Stowplan/Domain/Plans.lean
  Subject:   EXECUTABLE STEPS: what the engine asks of the steps of an active plan, as a property
  of the state, and that the checks of commands.ts decide it.
-/
import Stowplan.Domain.Graph
import Stowplan.Domain.Commands.Normal

namespace Stowplan

open Keyed Forest Relation

/-! ## 1. What looking up says -/

section Lookups

variable {s : WorkspaceState}

@[simp] theorem requireLocation_ok {id : String} {l : Location} :
    requireLocation s id = .ok l ↔ findLocation s id = some l := by
  simp [requireLocation]

/-- What the lookups return is the record with the id, active where they ask for it. -/
@[simp] theorem requireActiveLocation_ok {id : String} {l : Location} :
    requireActiveLocation s id = .ok l ↔ findLocation s id = some l ∧ l.active = true := by
  simp only [requireActiveLocation, result_bind_ok, requireLocation_ok, refuse_ok,
    result_pure_ok, Bool.not_eq_false', exists_const]
  constructor
  · rintro ⟨m, hm, ha, rfl⟩
    exact ⟨hm, ha⟩
  · rintro ⟨hl, ha⟩
    exact ⟨l, hl, ha, rfl⟩

@[simp] theorem requireItem_ok {id : String} {i : ItemRecord} :
    requireItem s id = .ok i ↔ findItem s id = some i := by
  simp [requireItem]

@[simp] theorem requireActiveItem_ok {id : String} {i : ItemRecord} :
    requireActiveItem s id = .ok i ↔ findItem s id = some i ∧ i.active = true := by
  simp only [requireActiveItem, result_bind_ok, requireItem_ok, refuse_ok, result_pure_ok,
    Bool.not_eq_false', exists_const]
  constructor
  · rintro ⟨m, hm, ha, rfl⟩
    exact ⟨hm, ha⟩
  · rintro ⟨hl, ha⟩
    exact ⟨i, hl, ha, rfl⟩

@[simp] theorem requirePlan_ok {id : String} {p : MovePlan} :
    requirePlan s id = .ok p ↔ findPlan s id = some p := by
  simp [requirePlan]

/-- A version that can be counted on. -/
@[simp] theorem nextItemVersion_ok {i : ItemRecord} {v : Int} :
    nextItemVersion i = .ok v ↔
      JsNumber.safeInt i.version = true ∧ i.version < JsNumber.maxSafeInteger ∧
        i.version + 1 = v := by
  simp [nextItemVersion, and_assoc]

/-- One more than a version is a version. -/
theorem version_succ {v : Int} (h1 : 1 ≤ v) (h2 : v < JsNumber.maxSafeInteger) :
    1 ≤ v + 1 ∧ JsNumber.safeInt (v + 1) = true := by
  refine ⟨by omega, ?_⟩
  have hm : (0 : Int) < JsNumber.maxSafeInteger := by decide
  simp only [JsNumber.safeInt, decide_eq_true_eq]
  omega

end Lookups

/-! ## 2. Steps -/

/-- There is an active location with the identifier. -/
def ActiveAt (s : WorkspaceState) (id : String) : Prop :=
  ∃ l, findLocation s id = some l ∧ l.active = true

/-- The item of the step is where the step takes it from, in the step's quantity. -/
structure ItemStepOk (s : WorkspaceState) (step : PlanStep) (i : ItemRecord) : Prop where
  type : step.type = .item
  itemId : step.itemId = some i.id
  locationId : step.locationId = none
  nonempty : i.id ≠ ""
  found : findItem s i.id = some i
  active : i.active = true
  source : i.locationId = step.sourceId
  quantity : step.quantity = some i.quantity

/-- The container of the step is where the step takes it from, and the destination is not
    inside it. -/
structure ContainerStepOk (s : WorkspaceState) (step : PlanStep) (l : Location) : Prop where
  type : step.type = .location
  locationId : step.locationId = some l.id
  itemId : step.itemId = none
  quantity : step.quantity = none
  nonempty : l.id ≠ ""
  found : findLocation s l.id = some l
  active : l.active = true
  source : l.parentId = some step.sourceId
  outside : ¬ ReflTransGen (Under s) step.destinationId l.id

/-- The step can be carried out now. -/
structure StepOk (s : WorkspaceState) (plan : MovePlan) (step : PlanStep) : Prop where
  source : ActiveAt s step.sourceId
  destination : ActiveAt s step.destinationId
  distinct : step.sourceId ≠ step.destinationId
  subject : (∃ i, ItemStepOk s step i) ∨ ∃ l, ContainerStepOk s step l
  area : planSelectionIssue s.household plan.selection = none
  selection : planSelectionStepIssue s.household plan.selection step = none

section Steps

variable {s : WorkspaceState} {plan : MovePlan} {step : PlanStep}

/-- A selection passes iff it has no message. -/
theorem assertPlanSelection_ok {st : Option PlanStep} {u : Unit} :
    assertPlanSelection s plan st = .ok u ↔
      planSelectionIssue s.household plan.selection = none ∧
      ∀ step ∈ st, planSelectionStepIssue s.household plan.selection step = none := by
  unfold assertPlanSelection
  cases h1 : planSelectionIssue s.household plan.selection with
  | some m => simp
  | none =>
      cases st with
      | none => simp
      | some step =>
          cases h2 : planSelectionStepIssue s.household plan.selection step <;> simp [h2]

/-- Numbers that are strictly equal are the same. -/
theorem JsNumber.eq_of_strictEq {a b : JsNumber} (h : a.strictEq b = true) : a = b := by
  simp only [JsNumber.strictEq, decide_eq_true_eq] at h
  exact h.1

/-- The quantity of a step is that of its item. -/
theorem eq_of_sameQuantity {q : Option JsNumber} {x : JsNumber} (h : sameQuantity q x = true) :
    q = some x := by
  cases q with
  | none => simp [sameQuantity] at h
  | some q => rw [JsNumber.eq_of_strictEq h]

theorem isSet_iff {v : Option String} : isSet v = true ↔ ∃ s, v = some s ∧ s ≠ "" := by
  cases v <;> simp [isSet]

/-- A destination is not inside a location when the engine's search does not find it there. -/
theorem outside_of_insideOf (hr : UniqueRecords s) {id destinationId : String}
    (hd : ActiveAt s destinationId) (h : insideOf s id destinationId = false) :
    ¬ ReflTransGen (Under s) destinationId id := by
  simp only [insideOf, Bool.or_eq_false_iff, decide_eq_false_iff_not, List.any_eq_false,
    decide_eq_true_eq] at h
  obtain ⟨l, hl, _⟩ := hd
  obtain ⟨hlm, hlid⟩ := findLocation_mem hl
  intro hpath
  rcases reflTransGen_iff_eq_or_transGen.mp hpath with he | ht
  · exact h.1 he
  · exact h.2 l (hr.mem_descendantsOf.mpr ⟨hlm, by rwa [hlid], fun e => h.1 (e.symm.trans hlid)⟩) hlid

/-- A step that is accepted is open and can be carried out. -/
theorem checkNewStep_ok (hr : UniqueRecords s) (h : checkNewStep s plan step = .ok ()) :
    step.done = false ∧ StepOk s plan step := by
  simp only [checkNewStep, result_bind_ok, refuse_ok, requireActiveLocation_ok,
    assertPlanSelection_ok, Option.mem_def, Option.some.injEq, forall_eq'] at h
  obtain ⟨_, ⟨harea, hsel⟩, _, hdone, source, ⟨hs, hsa⟩, destination, ⟨hd, hda⟩, _, hne, h⟩ := h
  have hsid := (findLocation_mem hs).2
  have hdid := (findLocation_mem hd).2
  have hne' : step.sourceId ≠ step.destinationId := by
    rw [← hsid, ← hdid]
    simpa using hne
  refine ⟨hdone, ⟨source, hs, hsa⟩, ⟨destination, hd, hda⟩, hne', ?_, harea, hsel⟩
  split at h
  · rename_i hc
    simp only [Bool.and_eq_true, decide_eq_true_eq, isSet_iff] at hc
    obtain ⟨htype, id, hid, hid0⟩ := hc
    simp only [hid, Option.getD_some, result_bind_ok, requireItem_ok, refuse_ok, refuseStale,
      Bool.or_eq_false_iff, decide_eq_false_iff_not, ne_eq, not_not, Bool.not_eq_false'] at h
    obtain ⟨i, hi, _, hact, ⟨hloc, hsrc⟩, hq⟩ := h
    have hii := (findItem_mem hi).2
    exact .inl ⟨i, htype, by rw [hid, hii], hloc, by rw [hii]; exact hid0, by rw [hii]; exact hi,
      hact, hsrc, eq_of_sameQuantity hq⟩
  · split at h
    · rename_i hc
      simp only [Bool.and_eq_true, decide_eq_true_eq, isSet_iff] at hc
      obtain ⟨htype, id, hid, hid0⟩ := hc
      simp only [hid, Option.getD_some, result_bind_ok, requireActiveLocation_ok, refuse_ok,
        refuseStale, Bool.or_eq_false_iff, decide_eq_false_iff_not, ne_eq, not_not] at h
      obtain ⟨l, ⟨hl, hact⟩, _, ⟨⟨hitem, hq⟩, hsrc⟩, hin⟩ := h
      have hli := (findLocation_mem hl).2
      exact .inr ⟨l, htype, by rw [hid, hli], hitem, hq, by rw [hli]; exact hid0,
        by rw [hli]; exact hl, hact, hsrc, outside_of_insideOf hr ⟨destination, hd, hda⟩ hin⟩
    · cases h

/-- So is an open step of a plan that becomes active. -/
theorem checkActiveStep_ok (hr : UniqueRecords s) (h : checkActiveStep s plan step = .ok ()) :
    StepOk s plan step := by
  simp only [checkActiveStep, result_bind_ok, refuse_ok, requireActiveLocation_ok,
    assertPlanSelection_ok, Option.mem_def, Option.some.injEq, forall_eq'] at h
  obtain ⟨_, ⟨harea, hsel⟩, source, ⟨hs, hsa⟩, destination, ⟨hd, hda⟩, _, hne, h⟩ := h
  have hsid := (findLocation_mem hs).2
  have hdid := (findLocation_mem hd).2
  have hne' : step.sourceId ≠ step.destinationId := by
    rw [← hsid, ← hdid]
    simpa using hne
  refine ⟨⟨source, hs, hsa⟩, ⟨destination, hd, hda⟩, hne', ?_, harea, hsel⟩
  split at h
  · rename_i hc
    simp only [Bool.and_eq_true, decide_eq_true_eq, isSet_iff] at hc
    obtain ⟨htype, id, hid, hid0⟩ := hc
    simp only [hid, Option.getD_some, result_bind_ok, requireItem_ok, refuse_ok, refuseStale,
      Bool.or_eq_false_iff, decide_eq_false_iff_not, ne_eq, not_not, Bool.not_eq_false'] at h
    obtain ⟨i, hi, ⟨⟨hact, hsrc⟩, hloc⟩, hq⟩ := h
    have hii := (findItem_mem hi).2
    exact .inl ⟨i, htype, by rw [hid, hii], hloc, by rw [hii]; exact hid0, by rw [hii]; exact hi,
      hact, hsrc, eq_of_sameQuantity hq⟩
  · split at h
    · rename_i hc
      simp only [Bool.and_eq_true, decide_eq_true_eq, isSet_iff] at hc
      obtain ⟨htype, id, hid, hid0⟩ := hc
      simp only [hid, Option.getD_some, result_bind_ok, requireActiveLocation_ok, refuse_ok,
        refuseStale, Bool.or_eq_false_iff, decide_eq_false_iff_not, ne_eq, not_not] at h
      obtain ⟨l, ⟨hl, hact⟩, ⟨⟨hitem, hq⟩, hsrc⟩, hin⟩ := h
      have hli := (findLocation_mem hl).2
      exact .inr ⟨l, htype, by rw [hid, hli], hitem, hq, by rw [hli]; exact hid0,
        by rw [hli]; exact hl, hact, hsrc, outside_of_insideOf hr ⟨destination, hd, hda⟩ hin⟩
    · cases h

/-- So is each step of a new plan. -/
theorem checkNewSteps_ok (hr : UniqueRecords s) {seen : List String} {steps : List PlanStep}
    (h : checkNewSteps s plan seen steps = .ok ()) :
    ∀ step ∈ steps, step.done = false ∧ StepOk s plan step := by
  induction steps generalizing seen with
  | nil => simp
  | cons step steps ih =>
      simp only [checkNewSteps, result_bind_ok] at h
      obtain ⟨_, _, _, _, _, hstep, h⟩ := h
      intro st hst
      rcases List.mem_cons.mp hst with rfl | hst
      · exact checkNewStep_ok hr hstep
      · exact ih h st hst

theorem forM_ok {α : Type} {f : α → Result Unit} {l : List α} (h : l.forM f = .ok ()) :
    ∀ a ∈ l, f a = .ok () := by
  induction l with
  | nil => simp
  | cons a l ih =>
      simp only [List.forM, result_bind_ok] at h
      obtain ⟨⟨⟩, ha, h⟩ := h
      intro b hb
      rcases List.mem_cons.mp hb with rfl | hb
      · exact ha
      · exact ih h b hb

/-- A plan that becomes active has an open step, and each can be carried out. -/
theorem assertPlanCanActivate_ok (hr : UniqueRecords s)
    (h : assertPlanCanActivate s plan = .ok ()) :
    (∃ step ∈ plan.steps, step.done = false) ∧
      ∀ step ∈ plan.steps, step.done = false → StepOk s plan step := by
  simp only [assertPlanCanActivate, result_bind_ok, refuse_ok, List.all_eq_false] at h
  obtain ⟨_, _, _, _, _, ⟨step, hstep, hdone⟩, h⟩ := h
  refine ⟨⟨step, hstep, by simpa using hdone⟩, fun st hst hd => ?_⟩
  exact checkActiveStep_ok hr (forM_ok h st (List.mem_filter.mpr ⟨hst, by simp [hd]⟩))

end Steps

end Stowplan
