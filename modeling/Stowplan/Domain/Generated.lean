/-
  File:      Stowplan/Domain/Generated.lean
  Subject:   GENERATED PLANS AND THE ENGINE: what the planner makes, `plan.create` accepts.

  The planner and the engine state the rules of a plan twice: the planner picks containers,
  items and destinations, the engine checks what it is given. On a workspace that is well formed
  they agree, whatever the arithmetic: a generated plan is refused for being empty or for a
  number that is not finite, and for nothing else.

  * `checkNewStep_of_sound`: a sound step passes the checks;
  * `generated_accepted`: `plan.create` of a generated plan;
  * `generated_sound`: its steps, and that no item is moved twice;
  * `generated_settled`: nothing left to gain.
-/
import Stowplan.Domain.Planned

namespace Stowplan

open Keyed Forest Relation

/-! ## 1. Names that are not blank -/

theorem not_blank_append {a b : String} (h : blank a = false) : blank (a ++ b) = false := by
  rw [← Bool.not_eq_true, blank_iff] at h ⊢
  intro hall
  refine h fun c hc => hall c ?_
  rw [String.toList_append]
  exact List.mem_append_left _ hc

/-- A plan always gets a name. -/
theorem planName_not_blank (name : Option String) (dateText : String) :
    blank (planName name dateText) = false := by
  unfold planName
  dsimp only
  split
  · exact not_blank_append (by decide +kernel)
  · rename_i hgiven
    rw [← Bool.not_eq_true]
    intro hblank
    rw [blank_trim] at hblank
    exact hgiven (beq_iff_eq.mp hblank)

/-! ## 2. Sound steps pass the checks -/

/-- Every record has an identifier. -/
structure Identified (s : WorkspaceState) : Prop where
  items : ∀ i ∈ s.items, i.id ≠ ""
  locations : ∀ l ∈ s.locations, l.id ≠ ""

section Checks

variable [Host] {s : WorkspaceState} {c : PlanContext} {plan : MovePlan} {step : PlanStep}

theorem outside_insideOf (hw : WellFormed s) {id destinationId : String}
    (h : ¬ ReflTransGen (Under s) destinationId id) : insideOf s id destinationId = false := by
  unfold insideOf
  rw [Bool.or_eq_false_iff, decide_eq_false_iff_not, List.any_eq_false]
  refine ⟨fun heq => h (heq ▸ .refl), fun l hl heq => h ?_⟩
  have hbelow := ((mem_descendantsOf hw).mp hl).2
  rw [of_decide_eq_true heq] at hbelow
  exact hbelow.to_reflTransGen

omit [Host] in
/-- A sound step is one that the selection of the plan allows. -/
theorem selection_of_sound (hc : c.selection = resolvePlanSelection s.household plan.selection)
    (h : StepSound s c step) :
    planSelectionStepIssue s.household plan.selection step = none := by
  unfold planSelectionStepIssue
  split
  · rfl
  · rename_i selection hselection
    have hres : resolvePlanSelection s.household plan.selection = c.selection := hc.symm
    dsimp only
    rw [hres]
    have hnone : ∀ {a b d e : Bool} {w x y z : String}, a = false → b = false → d = false →
        e = false → (if a then some w else if b then some x else if d then some y
          else if e then some z else none) = none := by
      intro a b d e w x y z ha hb hd he
      rw [ha, hb, hd, he]
      rfl
    rcases h with ⟨k, d, hk⟩ | ⟨i, d, hi⟩
    · have helig := hk.eligible
      unfold PlanContext.eligible at helig
      simp only [Bool.and_eq_true] at helig
      have hmove := helig.1.1.1.2
      rw [hk.sourceId, Option.getD_some] at hmove
      have hreceive := hk.receives
      have hfrom := hmove
      have hinto := hreceive
      unfold Resolved.canMoveLocation at hfrom
      unfold Resolved.canReceive at hinto
      simp only [Bool.and_eq_true] at hfrom hinto
      refine hnone ?_ ?_ ?_ ?_
      · rw [hk.destinationId, hfrom.1.2, hinto.1]
        rfl
      · rw [hk.destinationId, hreceive]
        rfl
      · rw [hk.type]
        rfl
      · rw [hk.locationId, Option.getD_some, hmove]
        simp
    · have hmove := hi.movable
      have hreceive := hi.receives
      have hfrom := hmove
      have hinto := hreceive
      unfold Resolved.canMoveItem at hfrom
      unfold Resolved.canReceive at hinto
      simp only [Bool.and_eq_true] at hfrom hinto
      refine hnone ?_ ?_ ?_ ?_
      · rw [hi.destinationId, hi.sourceId, hfrom.1, hinto.1]
        rfl
      · rw [hi.destinationId, hreceive]
        rfl
      · rw [hi.itemId, hi.sourceId, Option.getD_some, hmove]
        simp
      · rw [hi.type]
        rfl

omit [Host] in
theorem strictEq_self {x : JsNumber} (h : x.isFinite = true) : x.strictEq x = true := by
  unfold JsNumber.strictEq
  rw [decide_eq_true_eq]
  refine ⟨rfl, fun hnan => ?_⟩
  rw [hnan] at h
  cases h

omit [Host] in
theorem storage_active {l : Location} (h : isStorageLocation l = true) : l.active = true := by
  unfold isStorageLocation at h
  simp only [Bool.and_eq_true] at h
  exact h.1.1.1

/-- **A sound step passes the checks** of a new plan. -/
theorem checkNewStep_of_sound (hw : WellFormed s) (hp : Placement s) (hid : Identified s)
    (harea : planSelectionIssue s.household plan.selection = none)
    (hc : c.selection = resolvePlanSelection s.household plan.selection)
    (h : StepSound s c step) : checkNewStep s plan step = .ok () := by
  have hselection := selection_of_sound hc h
  unfold checkNewStep
  rcases h with ⟨k, d, hk⟩ | ⟨i, d, hi⟩
  · have helig := hk.eligible
    unfold PlanContext.eligible at helig
    simp only [Bool.and_eq_true] at helig
    obtain ⟨m, hm, hmid⟩ := hw.parents k hk.container _ hk.sourceId
    have hmact := hp.parents k hk.container helig.2 _ hk.sourceId m hm hmid
    have hfind := hw.unique.findLocation hm
    rw [hmid] at hfind
    simp only [result_bind_ok, refuse_ok, requireActiveLocation_ok, assertPlanSelection_ok]
    refine ⟨(), ⟨harea, ?_⟩, (), ?_, m, ⟨hfind, hmact⟩, d, ⟨?_, storage_active hk.storage⟩, (),
      ?_, ?_⟩
    · rintro _ ⟨rfl⟩
      exact hselection
    · unfold PlanStep.done
      rw [hk.completedAt]
      rfl
    · rw [hk.destinationId]
      exact hw.unique.findLocation hk.destination
    · rw [decide_eq_false_iff_not, hmid]
      intro heq
      exact hk.elsewhere (heq ▸ hk.sourceId)
    · rw [hk.type, hk.locationId]
      have hset : isSet (some k.id) = true := isSet_some (hid.locations k hk.container)
      rw [if_neg (by simp), if_pos (by rw [hset]; rfl)]
      simp only [result_bind_ok, refuse_ok, requireActiveLocation_ok, refuseStale,
        Option.getD_some]
      refine ⟨k, ⟨hw.unique.findLocation hk.container, helig.2⟩, (), ?_,
        outside_insideOf hw (hk.destinationId ▸ hk.outside)⟩
      rw [hk.itemId, hk.quantity, hk.sourceId]
      simp
  · obtain ⟨m, hm, hmid⟩ := hw.stored i hi.item
    have hmact := hp.items i hi.item hi.active m hm hmid
    have hfind := hw.unique.findLocation hm
    rw [hmid, ← hi.sourceId] at hfind
    simp only [result_bind_ok, refuse_ok, requireActiveLocation_ok, assertPlanSelection_ok]
    refine ⟨(), ⟨harea, ?_⟩, (), ?_, m, ⟨hfind, hmact⟩, d, ⟨?_, storage_active hi.storage⟩, (),
      ?_, ?_⟩
    · rintro _ ⟨rfl⟩
      exact hselection
    · unfold PlanStep.done
      rw [hi.completedAt]
      rfl
    · rw [hi.destinationId]
      exact hw.unique.findLocation hi.destination
    · rw [decide_eq_false_iff_not, hmid]
      exact hi.elsewhere
    · rw [hi.type, hi.itemId]
      have hset : isSet (some i.id) = true := isSet_some (hid.items i hi.item)
      rw [if_pos (by rw [hset]; rfl)]
      simp only [result_bind_ok, refuse_ok, requireItem_ok, refuseStale, Option.getD_some]
      refine ⟨i, hw.unique.findItem hi.item, (), ?_, ?_⟩
      · rw [hi.active]
        rfl
      · rw [hi.locationId, hi.quantity, hi.sourceId]
        have hsame : sameQuantity (some i.quantity) i.quantity = true :=
          strictEq_self (hw.quantities i hi.item).1
        rw [hsame]
        simp

omit [Host] in

/-- The steps of a plan pass iff each does and their ids differ. -/
theorem checkNewSteps_iff {steps : List PlanStep} {seen : List String}
    (hok : ∀ step ∈ steps, checkNewStep s plan step = .ok ())
    (hblank : ∀ step ∈ steps, blank step.id = false)
    (hnodup : (steps.map (·.id)).Nodup) (hnew : ∀ step ∈ steps, step.id ∉ seen) :
    checkNewSteps s plan seen steps = .ok () ↔ ∀ step ∈ steps, step.score.isFinite = true := by
  induction steps generalizing seen with
  | nil =>
      refine ⟨fun _ step hst => absurd hst List.not_mem_nil, fun _ => rfl⟩
  | cons step rest ih =>
      rw [List.map_cons, List.nodup_cons] at hnodup
      have hseen : ∀ st ∈ rest, st.id ∉ step.id :: seen := by
        intro st hst hmem
        rcases List.mem_cons.mp hmem with heq | hmem
        · exact hnodup.1 (heq ▸ List.mem_map_of_mem hst)
        · exact hnew st (List.mem_cons_of_mem _ hst) hmem
      have hrest := ih (fun st hst => hok st (List.mem_cons_of_mem _ hst))
        (fun st hst => hblank st (List.mem_cons_of_mem _ hst)) hnodup.2 hseen
      unfold checkNewSteps
      simp only [result_bind_ok, refuse_ok, hrest, hok step List.mem_cons_self,
        hblank step List.mem_cons_self, Bool.false_or, Bool.not_eq_false', exists_const,
        List.forall_mem_cons]
      have hfresh : seen.contains step.id = false := by
        rw [← Bool.not_eq_true, List.contains_iff_mem]
        exact hnew step List.mem_cons_self
      simp only [hfresh, true_and]

/-! ## 3. A plan that is begun -/

/-- The workspace with a plan as its active plan, every step of which can be carried out. -/
structure Begun (s t : WorkspaceState) (plan : MovePlan) : Prop where
  items : t.items = s.items
  locations : t.locations = s.locations
  present : plan ∈ t.plans
  only : ∀ p ∈ t.plans, p.status = .active → p = plan
  steps : ∀ step ∈ plan.steps, step.done = false ∧ StepOk t plan step

omit [Host] in
/-- Only the records matter to a step. -/
theorem StepOk.of_records {t : WorkspaceState} (h : StepOk s plan step)
    (hitems : t.items = s.items) (hlocs : t.locations = s.locations) : StepOk t plan step := by
  have hloc : ∀ id, findLocation t id = findLocation s id := fun id => by
    unfold findLocation
    rw [hlocs]
  have hitem : ∀ id, findItem t id = findItem s id := fun id => by
    unfold findItem
    rw [hitems]
  have hhouse : t.household = s.household := by
    unfold WorkspaceState.household
    rw [hitems, hlocs]
  have hunder : Under t = Under s := by
    unfold Under
    rw [hlocs]
  have hactive : ∀ {id}, ActiveAt s id → ActiveAt t id := by
    rintro id ⟨l, hl, hact⟩
    exact ⟨l, (hloc id).trans hl, hact⟩
  refine ⟨hactive h.source, hactive h.destination, h.distinct, ?_, hhouse ▸ h.area,
    hhouse ▸ h.selection⟩
  rcases h.subject with ⟨i, hi⟩ | ⟨l, hl⟩
  · exact .inl ⟨i, hi.type, hi.itemId, hi.locationId, hi.nonempty, (hitem _).trans hi.found,
      hi.active, hi.source, hi.quantity⟩
  · exact .inr ⟨l, hl.type, hl.locationId, hl.itemId, hl.quantity, hl.nonempty,
      (hloc _).trans hl.found, hl.active, hl.source, hunder ▸ hl.outside⟩

/-- A plan that is created changes no location or item. -/
theorem planCreate_begins (hw : WellFormed s) {change : Change}
    (h : planCreate s plan = .ok change) :
    ∃ t, applyPatches s change.patches = .ok t ∧ Begun s t plan := by
  simp only [planCreate, result_bind_ok, refuse_ok, result_pure_ok] at h
  obtain ⟨_, _, _, hne, _, _, _, hactive, _, hnew, _, hsteps, rfl⟩ := h
  have hnew : findPlan s plan.id = none :=
    findKey_eq_none.mpr fun q hq => by simpa using List.any_eq_false.mp hnew q hq
  have hok := checkNewSteps_ok hw.unique.records hsteps
  refine ⟨_, applyPatches_of_describes hw.unique
    ((describes_invalidation hw.unique.plans _).append (.single (.addPlan plan ?_))), rfl, rfl, ?_, ?_,
    fun step hst => ⟨(hok step hst).1, (hok step hst).2.of_records rfl rfl⟩⟩
  · show findKey _ _ (mapKeys _ _ _ _) = none
    rw [findKey_mapKeys (f := MovePlan.discard) (fun _ => rfl)]
    unfold findPlan at hnew
    rw [hnew]
    split <;> rfl
  · exact List.mem_append_right _ (List.mem_singleton_self _)
  · intro q hq hqactive
    rcases List.mem_append.mp hq with hq | hq
    · obtain ⟨p, hp, rfl⟩ := mem_mapKeys.mp hq
      split at hqactive
      · cases hqactive
      · rename_i hkept
        refine absurd (List.mem_map_of_mem (List.mem_filter.mpr ⟨hp, ?_⟩)) hkept
        exact decide_eq_true hqactive
    · exact List.mem_singleton.mp hq

/-- **A new plan is accepted** where the envelope is and `plan.create` makes a change; it is
    begun then. -/
theorem planCreate_accepted (hw : WellFormed s) {env : CommandEnvelope}
    (hcommand : env.command = .planCreate plan) :
    ((∃ r, applyCommand s env = .ok r) ↔
      checkEnvelope s (normalizeCommandEnvelope env) = .ok () ∧
        ∃ change, planCreate s plan = .ok change) ∧
      ∀ r, applyCommand s env = .ok r → Begun s r.state plan := by
  have hnormal : normalPatches s (normalizeCommandEnvelope env) = planCreate s plan := by
    unfold normalPatches normalizeCommandEnvelope
    rw [hcommand]
  have hhistory : env.command.isHistory = false := by
    rw [hcommand]
    rfl
  have hresult : ∀ {r}, applyNormalCommand s (normalizeCommandEnvelope env) = .ok r →
      ∃ change t, planCreate s plan = .ok change ∧ applyPatches s change.patches = .ok t ∧
        r.state.items = t.items ∧ r.state.locations = t.locations ∧
        r.state.plans = t.plans := by
    intro r hr
    simp only [applyNormalCommand, hnormal, result_bind_ok, result_pure_ok] at hr
    obtain ⟨change, hchange, t, ht, rfl⟩ := hr
    exact ⟨change, t, hchange, ht, rfl, rfl, rfl⟩
  refine ⟨⟨?_, ?_⟩, ?_⟩
  · rintro ⟨r, hr⟩
    obtain ⟨hcheck, ⟨-, hr⟩ | ⟨hh, -⟩⟩ := applyCommand_ok hr
    · obtain ⟨change, _, hchange, -⟩ := hresult hr
      exact ⟨hcheck, change, hchange⟩
    · rw [hhistory] at hh
      cases hh
  · rintro ⟨hcheck, change, hchange⟩
    obtain ⟨t, ht, -⟩ := planCreate_begins hw hchange
    have hmade : ∃ r, applyNormalCommand s (normalizeCommandEnvelope env) = .ok r := by
      simp only [applyNormalCommand, hnormal, result_bind_ok, result_pure_ok]
      exact ⟨_, change, hchange, t, ht, rfl⟩
    obtain ⟨r, hr⟩ := hmade
    have hh : (normalizeCommandEnvelope env).command.isHistory = false := hhistory
    refine ⟨r, ?_⟩
    unfold applyCommand
    simp only [result_bind_ok]
    refine ⟨(), hcheck, ?_⟩
    rw [if_neg (by rw [hh]; decide)]
    exact hr
  · intro r hr
    obtain ⟨-, ⟨-, hr⟩ | ⟨hh, -⟩⟩ := applyCommand_ok hr
    · obtain ⟨change, t, hchange, ht, hitems, hlocs, hplans⟩ := hresult hr
      obtain ⟨u, hu, hbegun⟩ := planCreate_begins hw hchange
      rw [ht, Except.ok.injEq] at hu
      subst hu
      refine ⟨hitems.trans hbegun.items, hlocs.trans hbegun.locations, hplans ▸ hbegun.present,
        hplans ▸ hbegun.only, fun step hst => ?_⟩
      exact ⟨(hbegun.steps step hst).1, (hbegun.steps step hst).2.of_records hitems hlocs⟩
    · rw [hhistory] at hh
      cases hh

end Checks

/-! ## 4. Generated plans -/

section Generated

variable [Host] [PlannerRuntime] {s : WorkspaceState} {options : PlanOptions}
  {uuid : Nat → String} {timestamp dateText : String} {plan : MovePlan}

omit [Host] in

/-- What a plan that was generated is. -/
theorem generatePlan_ok (h : generatePlan s options uuid timestamp dateText = .ok plan) :
    planSelectionIssue s.household options.selection = none ∧ plan = {
      createdAt := timestamp
      id := "plan_" ++ uuid (planMoves (options.context s uuid) s).drawn
      name := planName options.name dateText
      selection := options.selection
      status := .active
      steps := (planMoves (options.context s uuid) s).steps
      weights := (options.context s uuid).weights } := by
  unfold generatePlan at h
  split at h
  · cases h
  · rename_i hissue
    cases h
    exact ⟨hissue, rfl⟩

omit [Host] in
/-- The steps of a plan have different identifiers. -/
theorem stepIds_nodup (options : PlanOptions) (huuid : Function.Injective uuid) (hu : Unique s) :
    ((planMoves (options.context s uuid) s).steps.map (·.id)).Nodup ∧
      ∀ step ∈ (planMoves (options.context s uuid) s).steps, blank step.id = false := by
  obtain ⟨ns, hids, hpairs, -⟩ := (planMoves_planned (options.context s uuid) hu).1.named
  have hstep : ∀ m n, (options.context s uuid).stepId m = (options.context s uuid).stepId n →
      m = n := by
    intro m n heq
    refine huuid (String.toList_injective ?_)
    have hlist := congrArg String.toList heq
    unfold PlanContext.stepId at hlist
    rw [String.toList_append, String.toList_append] at hlist
    exact List.append_cancel_left hlist
  refine ⟨?_, fun step hst => ?_⟩
  · rw [hids]
    exact List.Nodup.map_on (fun m _ n _ heq => hstep m n heq)
      (hpairs.imp fun hlt => Nat.ne_of_lt hlt)
  · have hmem : step.id ∈ ns.map (options.context s uuid).stepId :=
      hids ▸ List.mem_map_of_mem (f := (·.id)) hst
    obtain ⟨n, -, hn⟩ := List.mem_map.mp hmem
    rw [← hn]
    exact not_blank_append (by decide +kernel)

/-- **Generated plans are accepted.** A plan that the planner makes for a well-formed workspace,
    with fresh identifiers, is accepted under an envelope that is, unless it has no steps, or a
    weight or a shown score that is not finite. Then it is the active plan, and every one of its
    steps can be carried out. -/
theorem generated_accepted (hw : WellFormed s) (hp : Placement s) (hid : Identified s)
    (huuid : Function.Injective uuid) (hfresh : ∀ n, ∀ p ∈ s.plans, p.id ≠ "plan_" ++ uuid n)
    (h : generatePlan s options uuid timestamp dateText = .ok plan) (env : CommandEnvelope)
    (hcommand : env.command = .planCreate plan) :
    ((∃ r, applyCommand s env = .ok r) ↔
      checkEnvelope s (normalizeCommandEnvelope env) = .ok () ∧ plan.steps ≠ [] ∧
        plan.weights.valid = true ∧ ∀ step ∈ plan.steps, step.score.isFinite = true) ∧
      ∀ r, applyCommand s env = .ok r → Begun s r.state plan := by
  obtain ⟨harea, hplan⟩ := generatePlan_ok h
  have hplanned := (planMoves_planned (options.context s uuid) hw.unique).1
  obtain ⟨hnodup, hblank⟩ := stepIds_nodup options huuid hw.unique
  have hsteps : plan.steps = (planMoves (options.context s uuid) s).steps := by rw [hplan]
  have hselection : planSelectionIssue s.household plan.selection = none := by
    rw [hplan]
    exact harea
  have hcontext : (options.context s uuid).selection =
      resolvePlanSelection s.household plan.selection := by
    rw [hplan]
    rfl
  have hchecks : checkNewSteps s plan [] plan.steps = .ok () ↔
      ∀ step ∈ plan.steps, step.score.isFinite = true :=
    checkNewSteps_iff
      (fun step hst => checkNewStep_of_sound hw hp hid hselection hcontext
        (hplanned.sound step (hsteps ▸ hst)))
      (fun step hst => hblank step (hsteps ▸ hst)) (hsteps ▸ hnodup)
      (fun step _ => List.not_mem_nil)
  obtain ⟨haccepts, hbegun⟩ := planCreate_accepted hw hcommand
  refine ⟨haccepts.trans (and_congr_right fun _ => ?_), hbegun⟩
  have hidfresh : (s.plans.any fun p => p.id = plan.id) = false := by
    rw [List.any_eq_false]
    intro p hpm
    rw [decide_eq_true_eq, hplan]
    exact hfresh _ p hpm
  have hnamed : plan.name = planName options.name dateText := by rw [hplan]
  have hname : blank plan.name = false := hnamed ▸ planName_not_blank options.name dateText
  have hplanId : blank plan.id = false := by
    rw [hplan]
    exact not_blank_append (by decide +kernel)
  have hactive : plan.status = .active := by rw [hplan]
  unfold planCreate
  simp only [result_bind_ok, refuse_ok, assertPlanSelection_ok, hselection, hname, hplanId,
    hactive, hidfresh, hchecks, Bool.false_or, Bool.not_eq_false', result_pure_ok]
  constructor
  · rintro ⟨_, _, hweights, _, hne, _, _, _, _, _, _, _, hscores, -⟩
    exact ⟨by simpa using hne, hweights, hscores⟩
  · rintro ⟨hne, hweights, hscores⟩
    exact ⟨_, (), hweights, (), by simpa using hne, (), ⟨trivial, by simp⟩, (), by simp, (),
      trivial, (), hscores, rfl⟩

omit [Host] in
/-- **The steps of a generated plan.** Whatever the weights and the arithmetic, every step moves
    an active item, or a container with everything in it, that the selection lets move, to a
    storage place that the selection lets receive, outside of what is moved, and breaks no rule of
    anything it moves; and no item is moved twice, by itself or with a container. -/
theorem generated_sound (hu : Unique s) (huuid : Function.Injective uuid)
    (h : generatePlan s options uuid timestamp dateText = .ok plan) :
    (∀ step ∈ plan.steps, StepSound s (options.context s uuid) step) ∧
      (plan.steps.flatMap (carried s)).Nodup ∧ (plan.steps.map (·.id)).Nodup := by
  obtain ⟨-, hplan⟩ := generatePlan_ok h
  have hplanned := (planMoves_planned (options.context s uuid) hu).1
  have hsteps : plan.steps = (planMoves (options.context s uuid) s).steps := by rw [hplan]
  rw [hsteps]
  refine ⟨hplanned.sound, ?_, (stepIds_nodup options huuid hu).1⟩
  rw [hplanned.carried]
  exact hplanned.once

/-! ## 5. Nothing left to gain -/

omit [Host] [PlannerRuntime] in
theorem le_of_exact {x y z : JsNumber} (hx : x.isFinite = true) (hy : y.isFinite = true)
    (hxy : x.exact ≤ y.exact) (hyz : y.le z = true) : x.le z = true := by
  obtain ⟨a, rfl, -⟩ := JsNumber.isFinite_iff.mp hx
  obtain ⟨b, rfl, -⟩ := JsNumber.isFinite_iff.mp hy
  have hab : a ≤ b := hxy
  unfold JsNumber.le JsNumber.strictEq at hyz ⊢
  simp only [Bool.or_eq_true, decide_eq_true_eq] at hyz ⊢
  cases z with
  | nan => simp [JsNumber.lt] at hyz
  | negInf => simp [JsNumber.lt] at hyz
  | posInf => exact .inl rfl
  | finite q =>
      simp only [JsNumber.lt_finite, decide_eq_true_eq, JsNumber.finite.injEq] at hyz ⊢
      have hbq : b ≤ q := by
        rcases hyz with hlt | ⟨heq, -⟩
        · exact hlt.le
        · exact heq.le
      rcases (hab.trans hbq).lt_or_eq with hlt | heq
      · exact .inl hlt
      · exact .inr ⟨heq, by simp⟩

omit [Host] [PlannerRuntime] in

/-- Finite numbers are compared as they are. -/
theorem le_finite {x y : JsNumber} (hx : x.isFinite = true) (hy : y.isFinite = true) :
    x.le y = decide (x.exact ≤ y.exact) := by
  obtain ⟨a, rfl, -⟩ := JsNumber.isFinite_iff.mp hx
  obtain ⟨b, rfl, -⟩ := JsNumber.isFinite_iff.mp hy
  unfold JsNumber.le JsNumber.strictEq
  rw [JsNumber.lt_finite, Bool.eq_iff_iff, Bool.or_eq_true, decide_eq_true_eq, decide_eq_true_eq,
    decide_eq_true_eq, JsNumber.finite.injEq]
  show a < b ∨ (a = b ∧ _) ↔ a ≤ b
  constructor
  · rintro (hlt | ⟨heq, -⟩)
    · exact hlt.le
    · exact heq.le
  · intro hle
    rcases hle.lt_or_eq with hlt | heq
    · exact .inl hlt
    · exact .inr ⟨heq, by simp⟩

omit [Host] in
/-- **The first of the ranked places is the best of them.** -/
theorem ranked_head {c : PlanContext} {w : WorkspaceState} {item : ItemRecord}
    {first other : Location × CandidateScore} (hfirst : (ranked c w item).head? = some first)
    (hother : other ∈ ranked c w item) :
    first.2.score.isFinite = true ∧ other.2.score.isFinite = true ∧
      other.2.score.exact ≤ first.2.score.exact := by
  have hfinite : ∀ candidate ∈ ranked c w item, candidate.2.score.isFinite = true := by
    intro candidate hmem
    unfold ranked at hmem
    obtain ⟨hin, hfail⟩ := List.mem_filter.mp (List.mem_mergeSort.mp hmem)
    obtain ⟨d, hd, rfl⟩ := List.mem_map.mp hin
    exact (scoreCandidate_ok (Option.isNone_iff_eq_none.mp hfail)).2
  have hsorted : ((ranked c w item).map fun x => x.2.score.exact).Pairwise (· ≥ ·) := by
    have hranked := hfinite
    unfold ranked at hranked ⊢
    rw [List.map_mergeSort (f := fun x : Location × CandidateScore => x.2.score.exact)
      (s := fun a b => decide (b ≤ a)) (fun a ha b hb =>
        le_finite (hranked b (List.mem_mergeSort.mpr hb)) (hranked a (List.mem_mergeSort.mpr ha)))]
    refine (List.pairwise_mergeSort ?_ ?_ _).imp fun hab => of_decide_eq_true hab
    · intro a b c hab hbc
      exact decide_eq_true ((of_decide_eq_true hbc).trans (of_decide_eq_true hab))
    · intro a b
      rw [Bool.or_eq_true, decide_eq_true_eq, decide_eq_true_eq]
      exact le_total b a
  refine ⟨hfinite first (List.mem_of_mem_head? hfirst), hfinite other hother, ?_⟩
  cases hlist : ranked c w item with
  | nil =>
      rw [hlist] at hother
      exact absurd hother List.not_mem_nil
  | cons a rest =>
      rw [hlist, List.head?_cons, Option.some.injEq] at hfirst
      rw [hlist] at hother hsorted
      rw [List.map_cons, List.pairwise_cons] at hsorted
      subst hfirst
      rcases List.mem_cons.mp hother with rfl | hrest
      · exact le_refl _
      · exact hsorted.1 _ (List.mem_map_of_mem hrest)

/-- **A generated plan leaves nothing to gain.** In the workspace with its steps carried out, an
    item that may move and that no step moved has no allowed place whose score beats that of
    where it is by more than the cost of a move. -/
theorem generated_settled (hw : WellFormed s)
    (h : generatePlan s options uuid timestamp dateText = .ok plan) :
    ∀ i ∈ (carryOut s plan.steps).items, i.active = true →
      (resolvePlanSelection s.household plan.selection).canMoveItem i.id i.locationId = true →
      i.id ∉ plan.steps.flatMap (carried s) →
      ∃ here, findLocation (carryOut s plan.steps) i.locationId = some here ∧
        ∀ d ∈ (carryOut s plan.steps).locations, isStorageLocation d = true →
          (resolvePlanSelection s.household plan.selection).canReceive d.id = true →
          d.id ≠ i.locationId →
          (scoreCandidate (carryOut s plan.steps) i d plan.weights).hardFailure = none →
          (scoreCandidate (carryOut s plan.steps) i d plan.weights).score.le
            (PlannerRuntime.add
              (scoreCandidate (carryOut s plan.steps) i here plan.weights).score
              plan.weights.moveCost) = true := by
  obtain ⟨-, hplan⟩ := generatePlan_ok h
  obtain ⟨hplanned, hnothing, f, g, hrelocating⟩ :=
    planMoves_planned (options.context s uuid) hw.unique
  have hsteps : plan.steps = (planMoves (options.context s uuid) s).steps := by rw [hplan]
  have hselection : resolvePlanSelection s.household plan.selection =
      (options.context s uuid).selection := by
    rw [hplan]
    rfl
  have hweights : plan.weights = (options.context s uuid).weights := by rw [hplan]
  rw [hsteps, ← hplanned.projected, hselection, hweights]
  intro i hi hact hmovable hstays
  rw [hplanned.carried, List.mem_append, not_or] at hstays
  have hnone := hnothing i hi (by
    unfold PlanContext.plannable
    rw [hact, hmovable]
    simpa using hstays)
  -- the item is somewhere, and was there before
  have hmem := hi
  rw [hrelocating.copies.items] at hmem
  obtain ⟨i₀, hi₀, rfl⟩ := List.mem_map.mp hmem
  have hloc : (i₀.relocated g).locationId = i₀.locationId :=
    hrelocating.kept i₀ hi₀ hstays.2
  obtain ⟨l, hl, hlid⟩ := hw.stored i₀ hi₀
  have hnodup : ((planMoves (options.context s uuid) s).projected.locations.map
      Location.id).Nodup := hrelocating.copies.ids ▸ hw.unique.locations
  have hhere : findLocation (planMoves (options.context s uuid) s).projected
      (i₀.relocated g).locationId = some (l.reparented f) := by
    rw [hloc, ← hlid]
    refine findKey_of_mem hnodup (x := l.reparented f) ?_
    rw [hrelocating.copies.locations]
    exact List.mem_map_of_mem hl
  refine ⟨_, hhere, fun d hd hstorage hreceives hne hfail => ?_⟩
  have hin : (d, scoreCandidate (planMoves (options.context s uuid) s).projected
      (i₀.relocated g) d (options.context s uuid).weights) ∈
      ranked (options.context s uuid) (planMoves (options.context s uuid) s).projected
        (i₀.relocated g) := by
    unfold ranked PlanContext.receivers
    refine List.mem_mergeSort.mpr (List.mem_filter.mpr
      ⟨List.mem_map.mpr ⟨d, List.mem_filter.mpr ⟨List.mem_filter.mpr ⟨hd, ?_⟩, ?_⟩, rfl⟩, ?_⟩)
    · rw [hstorage, hreceives]
      rfl
    · exact decide_eq_true hne
    · rw [hfail]
      rfl
  unfold bestDestination at hnone
  rw [hhere] at hnone
  dsimp only at hnone
  split at hnone
  · rename_i hhead
    rw [List.head?_eq_none_iff.mp hhead] at hin
    exact absurd hin List.not_mem_nil
  · rename_i best hbest
    split at hnone
    · rename_i hle
      obtain ⟨hbfinite, hdfinite, hexact⟩ := ranked_head hbest hin
      exact le_of_exact hdfinite hbfinite hexact hle
    · cases hnone

end Generated

/-! ## 6. A saw that goes to the other tools -/

/-- Exact arithmetic, and the lower case of ASCII. -/
@[reducible] def exactRuntime : PlannerRuntime where
  number q := .ofRat q
  add := JsNumber.add
  sub := JsNumber.sub
  mul a b := .ofRat (a.exact * b.exact)
  div a b := .ofRat (a.exact / b.exact)
  pow a b := .ofRat (a.exact ^ b.exact.num.toNat)
  round a := .ofRat (a.exact + 1 / 2).floor
  toLowerCase s := String.ofList (s.toList.map Char.toLower)

/-- A counted shelf. -/
def shelf (id name code : String) : Location :=
  { plainLocation id name code none with captureStatus := .counted, kind := .shelf }

/-- A tool at a place. -/
def tool (id name locationId : String) : ItemRecord :=
  { plainItem id name locationId with category := "Tools" }

/-- Two shelves, with two tools on the right one and one on the left. -/
def toolState : WorkspaceState := { firstState with
  locations := [shelf "A" "Left shelf" "L1", shelf "B" "Right shelf" "R1"]
  items := [tool "i1" "Saw" "A", tool "i2" "Drill" "B", tool "i3" "Hammer" "B"] }

/-- Things that belong together count most. -/
def groupingOptions : PlanOptions :=
  ⟨none, some { defaultPlanWeights with grouping := 10 }, none⟩

/-- A text for each number, as a supply of new identifiers. -/
def tallies (n : Nat) : String := String.ofList (List.replicate n '1')

theorem tallies_injective : Function.Injective tallies := by
  intro m n h
  have hlength := congrArg (fun s => s.toList.length) h
  simpa [tallies] using hlength

/-- The plan for them. -/
def toolPlan : Result MovePlan :=
  @generatePlan exactRuntime toolState groupingOptions tallies "2024-01-02T00:00:00.000Z"
    "1/2/2024"

theorem toolPlan_moves : (toolPlan.toOption.map fun p => (p.weights.valid,
      p.steps.map fun s => (s.itemId, s.destinationId, s.score.isFinite))) =
    some (true, [(some "i1", "B", true)]) := by
  decide +kernel

theorem toolState_wellFormed : @WellFormed asciiHost toolState := by
  let : Host := asciiHost
  refine ⟨⟨by decide +kernel, by decide +kernel, List.nodup_nil⟩, ?_, ?_, ?_, ?_, ?_, ?_⟩
  · intro l hl p hp
    simp only [toolState, List.mem_cons, List.not_mem_nil, or_false] at hl
    rcases hl with rfl | rfl <;> cases hp
  · intro a ha
    obtain ⟨_, ⟨l, hl, -, hp⟩, -⟩ := TransGen.head'_iff.mp ha
    simp only [toolState, List.mem_cons, List.not_mem_nil, or_false] at hl
    rcases hl with rfl | rfl <;> cases hp
  · intro i hi
    simp only [toolState, List.mem_cons, List.not_mem_nil, or_false] at hi
    rcases hi with rfl | rfl | rfl
    · exact ⟨_, List.mem_cons_self, rfl⟩
    · exact ⟨_, List.mem_cons_of_mem _ List.mem_cons_self, rfl⟩
    · exact ⟨_, List.mem_cons_of_mem _ List.mem_cons_self, rfl⟩
  · intro l hl m hm _ _ hcode
    have hne : codeKey "L1" ≠ codeKey "R1" := by decide +kernel
    simp only [toolState, List.mem_cons, List.not_mem_nil, or_false] at hl hm
    rcases hl with rfl | rfl <;> rcases hm with rfl | rfl
    · rfl
    · exact absurd hcode hne
    · exact absurd hcode.symm hne
    · rfl
  · intro i hi
    have hone : JsNumber.isFinite 1 = true ∧ JsNumber.pos 1 = true := by decide +kernel
    simp only [toolState, List.mem_cons, List.not_mem_nil, or_false] at hi
    rcases hi with rfl | rfl | rfl <;> exact hone
  · intro i hi
    have hone : (1 : Int) ≤ 1 ∧ JsNumber.safeInt 1 = true := by decide +kernel
    simp only [toolState, List.mem_cons, List.not_mem_nil, or_false] at hi
    rcases hi with rfl | rfl | rfl <;> exact hone

theorem toolState_placement : Placement toolState := by
  refine ⟨?_, ?_, ?_⟩
  · intro l hl _ p hp
    simp only [toolState, List.mem_cons, List.not_mem_nil, or_false] at hl
    rcases hl with rfl | rfl <;> cases hp
  · intro i _ _ l hl _
    simp only [toolState, List.mem_cons, List.not_mem_nil, or_false] at hl
    rcases hl with rfl | rfl <;> rfl
  · intro l hl hempty
    simp only [toolState, List.mem_cons, List.not_mem_nil, or_false] at hl
    rcases hl with rfl | rfl <;> cases hempty

theorem toolState_identified : Identified toolState := by
  refine ⟨?_, ?_⟩
  · intro i hi
    simp only [toolState, List.mem_cons, List.not_mem_nil, or_false] at hi
    rcases hi with rfl | rfl | rfl <;> decide +kernel
  · intro l hl
    simp only [toolState, List.mem_cons, List.not_mem_nil, or_false] at hl
    rcases hl with rfl | rfl <;> decide +kernel

/-- The checks of an envelope do not look at its command. -/
theorem checkEnvelope_command [Host] (s : WorkspaceState) (id : String) (a b : Command) :
    checkEnvelope s (normalizeCommandEnvelope (firstEnvelope id a)) =
      checkEnvelope s (normalizeCommandEnvelope (firstEnvelope id b)) := rfl

/-- The plan for the tools moves the saw, and is accepted. -/
theorem generated_accepted_tools : ∃ plan r, toolPlan = .ok plan ∧ plan.steps.length = 1 ∧
    @applyCommand asciiHost toolState (firstEnvelope "c1" (.planCreate plan)) = .ok r ∧
    Begun toolState r.state plan := by
  let : Host := asciiHost
  have hmoves := toolPlan_moves
  cases hplan : toolPlan with
  | error e =>
      rw [hplan] at hmoves
      cases hmoves
  | ok plan =>
      rw [hplan] at hmoves
      simp only [Except.toOption, Option.map_some, Option.some.injEq, Prod.mk.injEq] at hmoves
      obtain ⟨hweights, hsteps⟩ := hmoves
      have hlength : plan.steps.length = 1 := by
        have := congrArg List.length hsteps
        rwa [List.length_map] at this
      have hcheck : checkEnvelope toolState (normalizeCommandEnvelope
          (firstEnvelope "c1" (.planCreate plan))) = .ok () := by
        rw [checkEnvelope_command toolState "c1" _ (.workspaceRename "Flat")]
        have hok : (checkEnvelope toolState (normalizeCommandEnvelope
            (firstEnvelope "c1" (.workspaceRename "Flat")))).isOk = true := by
          decide +kernel
        cases hc : checkEnvelope toolState (normalizeCommandEnvelope
            (firstEnvelope "c1" (.workspaceRename "Flat"))) with
        | error e =>
            rw [hc] at hok
            cases hok
        | ok u => rfl
      have haccepted := @generated_accepted asciiHost exactRuntime _ _ _ _ _ _
        toolState_wellFormed toolState_placement toolState_identified tallies_injective
        (fun n p hp => absurd hp List.not_mem_nil) hplan (firstEnvelope "c1" (.planCreate plan)) rfl
      have hscores : ∀ step ∈ plan.steps, step.score.isFinite = true := by
        intro step hstep
        have hmem := List.mem_map_of_mem (f := fun s : PlanStep =>
          (s.itemId, s.destinationId, s.score.isFinite)) hstep
        rw [hsteps, List.mem_singleton, Prod.mk.injEq, Prod.mk.injEq] at hmem
        exact hmem.2.2
      have hne : plan.steps ≠ [] := by
        intro hnil
        rw [hnil] at hlength
        cases hlength
      obtain ⟨r, hr⟩ := haccepted.1.mpr ⟨hcheck, hne, hweights, hscores⟩
      exact ⟨plan, r, rfl, hlength, hr, haccepted.2 r hr⟩

/-- Its step is sound. -/
theorem generated_sound_tools : ∃ plan, toolPlan = .ok plan ∧
    ∀ step ∈ plan.steps, StepSound toolState
      (@PlanOptions.context groupingOptions toolState tallies) step := by
  have hmoves := toolPlan_moves
  cases hplan : toolPlan with
  | error e =>
      rw [hplan] at hmoves
      cases hmoves
  | ok plan =>
      exact ⟨plan, rfl, (@generated_sound exactRuntime _ _ _ _ _ _
        (@WellFormed.unique asciiHost _ toolState_wellFormed) tallies_injective hplan).1⟩

/-- The drill stays: no place is better for it by more than the cost of a move. -/
theorem generated_settled_tools : ∃ plan, toolPlan = .ok plan ∧
    ∃ i ∈ (carryOut toolState plan.steps).items, i.id = "i2" ∧
      ∃ here, findLocation (carryOut toolState plan.steps) i.locationId = some here ∧
        ∀ d ∈ (carryOut toolState plan.steps).locations, isStorageLocation d = true →
          (resolvePlanSelection toolState.household plan.selection).canReceive d.id = true →
          d.id ≠ i.locationId →
          (@scoreCandidate exactRuntime (carryOut toolState plan.steps) i d
            plan.weights).hardFailure = none →
          (@scoreCandidate exactRuntime (carryOut toolState plan.steps) i d plan.weights).score.le
            (exactRuntime.add (@scoreCandidate exactRuntime (carryOut toolState plan.steps) i here
              plan.weights).score plan.weights.moveCost) = true := by
  have hmoves : (toolPlan.toOption.map fun plan =>
      (carryOut toolState plan.steps).items.any fun i => i.active && decide (i.id = "i2") &&
        (resolvePlanSelection toolState.household plan.selection).canMoveItem i.id i.locationId &&
        !(plan.steps.flatMap (carried toolState)).contains i.id) = some true := by
    decide +kernel
  cases hplan : toolPlan with
  | error e =>
      rw [hplan] at hmoves
      cases hmoves
  | ok plan =>
      rw [hplan] at hmoves
      simp only [Except.toOption, Option.map_some, Option.some.injEq, List.any_eq_true,
        Bool.and_eq_true, decide_eq_true_eq, Bool.not_eq_true'] at hmoves
      obtain ⟨i, hi, ⟨⟨hact, hid⟩, hmovable⟩, hstays⟩ := hmoves
      exact ⟨plan, rfl, i, hi, hid, @generated_settled asciiHost exactRuntime _ _ _ _ _ _
        toolState_wellFormed hplan i hi hact hmovable (not_mem_of_contains hstays)⟩

end Stowplan
