/-
  File:      Stowplan/Domain/Snapshot.lean
  Subject:   THE SNAPSHOT CHECK OF A TYPED STATE, AS A WHOLE.

  Plans, receipts, the workspace, and then all records together.

  * `reads_planLoop`, `allowed_receiptLoop`, `allowed_workspaceIssues`: the remaining parts;
  * `reads_recordIssues`: the records of a value that holds those of a typed state;
  * `of_historyKind`: the kinds of issues the check of selections and history can report;
  * `reads_of_allowed`, `allowed_of_reads`: from the issues of the whole check to the records,
    and back.
-/
import Stowplan.Domain.Readings

namespace Stowplan

open Keyed Forest JsValue

/-! ## 1. Plans -/

section Selection

/-- Ids of a selection, as the check reads them. -/
theorem isIdList_encode (ids : List String) : isIdList (encode ids) = idList ids := by
  have h : (encode ids).elems.map text = ids := by
    rw [elems_encode, List.map_map]
    exact List.map_id'' (fun _ => rfl) ids
  rw [isIdList, isStringArray_encode, h, Bool.true_and]

/-- A stored selection is checked like a typed one. -/
theorem validSelectionValue_encode (selection : PlanSelection) :
    validSelectionValue (encode selection) = validPlanSelection (some selection) := by
  have hu : (encode selection = .undefined) = False := by
    rw [eq_iff_iff, iff_false]
    intro h
    cases h
  have hr : (encode selection).isRecord = true := rfl
  have hk : (encode selection).keys.all
      (fun k => ["locationIds", "pinnedItemIds", "pinnedLocationIds"].contains k) = true := by
    show (["locationIds", "pinnedItemIds", "pinnedLocationIds"].all fun k =>
      ["locationIds", "pinnedItemIds", "pinnedLocationIds"].contains k) = true
    decide
  have h1 : (encode selection).get "locationIds" = encode selection.locationIds := rfl
  have h2 : (encode selection).get "pinnedItemIds" = encode selection.pinnedItemIds := rfl
  have h3 : (encode selection).get "pinnedLocationIds" = encode selection.pinnedLocationIds := rfl
  unfold validSelectionValue
  rw [hk, hr, h1, h2, h3, isIdList_encode, isIdList_encode]
  simp only [hu, decide_false, Bool.false_or, Bool.true_and, validPlanSelection]
  cases selection.locationIds with
  | none => rfl
  | some ids =>
      have hn : (encode (some ids) = JsValue.null) = False := by
        rw [eq_iff_iff, iff_false]
        intro h
        cases h
      have hi : isIdList (encode (some ids)) = idList ids := isIdList_encode ids
      simp only [hn, hi, decide_false, Bool.false_or]

/-- The selection of a plan, as its value shows it. -/
theorem validSelectionValue_plan (p : MovePlan) :
    validSelectionValue ((encode p).get "selection") = validPlanSelection p.selection := by
  obtain ⟨_, _, _, selection, _, _, _⟩ := p
  cases selection with
  | none => rfl
  | some selection => exact validSelectionValue_encode selection

end Selection

section Plans

/-- Every weight is a number. -/
def PlanWeights.finite (w : PlanWeights) : Bool :=
  w.accessibility.isFinite && w.capacity.isFinite && w.grouping.isFinite &&
    w.moveCost.isFinite && w.suitability.isFinite

/-- The weights of a plan are finite or reported. -/
theorem weights_encode (w : PlanWeights) :
    (planWeightFields.any fun f => !((encode w).get f).isFiniteNum) = !w.finite := by
  show (!w.accessibility.isFinite || (!w.capacity.isFinite || (!w.grouping.isFinite ||
    (!w.moveCost.isFinite || (!w.suitability.isFinite || false))))) = _
  simp only [PlanWeights.finite, Bool.or_false, Bool.not_and, Bool.or_assoc]

/-- Every step carries a time of completion, if only an empty one. -/
def MovePlan.stamped (p : MovePlan) : Bool := p.steps.all fun step => step.completedAt.isSome

/-- A step is done iff it has a time. -/
theorem stepStamped_encode (step : PlanStep) :
    stepStamped (encode step) = step.completedAt.isSome := by
  show (encode step.completedAt).isString = _
  cases step.completedAt <;> rfl

/-- What the check of one plan asks, after the identifiers of those before. -/
@[mk_iff]
structure PlanReads (P : String → String → Prop) (ls : List Location) (is : List ItemRecord)
    (ids : List String) (p : MovePlan) : Prop where
  fresh : p.id ∈ ids → P "DUPLICATE_ID" "Duplicate plan id"
  name : blank p.name = true → P "PLAN_NAME" "Plan name cannot be blank"
  selection : validPlanSelection p.selection = false →
    P "PLAN_SELECTION" "Plan areas and pins are malformed"
  weights : p.weights.finite = false → P "PLAN_WEIGHTS" "Every plan weight must be numeric"
  some : p.status = .active → p.steps = [] → P "PLAN_STEPS" "An active plan needs at least one move"
  steps : StepsRead P ls is (p.status = .active) [] p.steps
  completed : p.status = .completed → p.stamped = false →
    P "PLAN_STATUS" "A completed plan cannot contain unfinished moves"
  unfinished : p.status = .active → p.steps ≠ [] → p.stamped = true →
    P "PLAN_STATUS" "A plan with every move completed must be marked completed"

variable [Host]

/-- What the check of a plan reads of it. -/
theorem reads_planIssues (ls : List Location) (is : List ItemRecord) (index : Nat)
    (ids : List String) (p : MovePlan) :
    Reads (planIssues (ls.map encode) (is.map encode) index ids (encode p))
      (PlanReads · ls is ids p) := by
  have hselection := validSelectionValue_plan p
  have hid : (encode p).get "id" = .str p.id := rfl
  have hname : (encode p).get "name" = .str p.name := rfl
  have hcreated : (encode p).get "createdAt" = .str p.createdAt := rfl
  have hstatus : (encode p).get "status" = .str p.status.word := by
    obtain ⟨_, _, _, selection, _, _, _⟩ := p
    cases selection <;> rfl
  have hweights : (encode p).get "weights" = encode p.weights := by
    obtain ⟨_, _, _, selection, _, _, _⟩ := p
    cases selection <;> rfl
  have hsteps : (encode p).get "steps" = encode p.steps := by
    obtain ⟨_, _, _, selection, _, _, _⟩ := p
    cases selection <;> rfl
  have hactive : ((.str p.status.word : JsValue) = .str "active") ↔ p.status = .active := by
    cases p.status <;> decide
  have hcompleted : ((.str p.status.word : JsValue) = .str "completed") ↔ p.status = .completed := by
    cases p.status <;> decide
  have hrecord : (encode p.weights).isRecord = true := rfl
  have harray : (encode p.steps).isArray = true := rfl
  have hall : (p.steps.all fun step => stepStamped (encode step)) = p.stamped := by
    simp only [stepStamped_encode, MovePlan.stamped]
  have hany : (p.steps.any fun step => !stepStamped (encode step)) = !p.stamped := by
    rw [← hall, ← List.not_all_eq_any_not]
  unfold planIssues
  simp only [hname, hstatus, hweights, hsteps, hselection, oneOf_str, planStatuses_contains]
  refine ⟨_, rfl, fun P => ?_⟩
  simp only [hactive, hcompleted, hrecord, harray, weights_encode, elems_encode, List.any_map,
    List.all_map, Function.comp_def, hall, hany, allowed_append, allowed_issueIf,
    allowed_stepLoop, requireString, isString, hname, hcreated, isNonblank_str, hid, valueId, text,
    List.isEmpty_map, planReads_iff, Bool.not_true, Bool.false_eq_true, if_false, false_implies,
    Bool.not_not, Bool.true_and, Bool.and_eq_true, Bool.not_eq_true', decide_eq_true_eq,
    List.isEmpty_iff, List.isEmpty_eq_false_iff, List.contains_iff_mem, and_assoc, and_imp,
    true_and, ne_eq]

/-- What the check of the plans asks, one after another. -/
def PlansRead (P : String → String → Prop) (ls : List Location) (is : List ItemRecord) :
    List String → List MovePlan → Prop
  | _, [] => True
  | ids, p :: rest =>
    if blank p.id = true then P "PLAN_ID" "Plan needs an id" ∧ PlansRead P ls is ids rest
    else PlanReads P ls is ids p ∧ PlansRead P ls is (p.id :: ids) rest

/-- What the loop reads of all plans. -/
theorem reads_planLoop (ls : List Location) (is : List ItemRecord) (index : Nat)
    (ids : List String) (ps : List MovePlan) :
    Reads (planLoop (ls.map encode) (is.map encode) index ids (ps.map encode))
      (PlansRead · ls is ids ps) := by
  induction ps generalizing index ids with
  | nil => exact ⟨[], rfl, fun P => by simp [PlansRead]⟩
  | cons p ps ih =>
      rw [List.map_cons, planLoop]
      have hr : (encode p).isRecord = true := rfl
      have hid : (encode p).get "id" = .str p.id := rfl
      simp only [hr, hid, isNonblank_str, Bool.not_true, Bool.not_not, Bool.false_or, valueId,
        text, PlansRead]
      by_cases hb : blank p.id = true
      · simp only [if_pos hb]
        exact (ih _ _).after _ _ _
      · simp only [if_neg hb]
        exact (reads_planIssues ls is index ids p).both (ih _ _)

/-- The plans the check counts as active. -/
def countedActive (ps : List MovePlan) : List MovePlan :=
  ps.filter fun p => !blank p.id && decide (p.status = .active)

omit [Host] in

/-- The active plans that are counted. -/
theorem activePlanCount_encode (ps : List MovePlan) :
    activePlanCount (ps.map encode) = (countedActive ps).length := by
  unfold activePlanCount countedActive
  rw [List.filter_map, List.length_map]
  congr 1
  refine List.filter_congr fun p _ => ?_
  have hstatus : (encode p).get "status" = .str p.status.word := by
    obtain ⟨_, _, _, selection, _, _, _⟩ := p
    cases selection <;> rfl
  have hactive : decide ((.str p.status.word : JsValue) = .str "active") =
      decide (p.status = .active) := by
    cases p.status <;> decide
  show (true && !blank p.id && decide ((encode p).get "status" = .str "active")) = _
  rw [hstatus, hactive, Bool.true_and]

end Plans

/-! ## 2. The workspace and the receipts -/

section Head

/-- What the check of the workspace record asks. -/
def WorkspaceReads (P : String → String → Prop) (w : Workspace) : Prop :=
  if blank w.id = true then P "WORKSPACE_REQUIRED" "Backup needs a workspace"
  else
    (blank w.name = true → P "WORKSPACE_NAME" "Workspace name cannot be blank") ∧
    (JsNumber.safeInt w.revision = false ∨ w.revision < 0 →
      P "WORKSPACE_REVISION" "Revision must be a non-negative safe integer")

/-- What the check reads of the workspace itself. -/
theorem allowed_workspaceIssues {P : String → String → Prop} {value : JsValue} {w : Workspace}
    (h : value.get "workspace" = encode w) :
    Allowed P (workspaceIssues value) ↔ WorkspaceReads P w := by
  have hr : (encode w).isRecord = true := rfl
  have hid : (encode w).get "id" = .str w.id := rfl
  have hname : (encode w).get "name" = .str w.name := rfl
  have hcreated : (encode w).get "createdAt" = .str w.createdAt := rfl
  have hupdated : (encode w).get "updatedAt" = .str w.updatedAt := rfl
  have hrev : (encode w).get "revision" = encode w.revision := rfl
  unfold workspaceIssues WorkspaceReads
  simp only [h, hr, hid, hname, hcreated, hupdated, hrev, requireString, isNonblank_str, isString,
    isSafeIntFrom_encode, Bool.not_true, Bool.false_or, Bool.not_not]
  split
  · simp
  · simp only [allowed_append, allowed_issueIf, Bool.false_eq_true, false_implies, true_and,
      and_true, Bool.true_and, Bool.not_eq_true', Bool.and_eq_false_iff, decide_eq_false_iff_not,
      not_le]

/-- What the check of the receipts asks, after the ones before. -/
def ReceiptsRead (P : String → String → Prop) : List String → List String → Prop
  | _, [] => True
  | seen, id :: rest =>
    (blank id = true → P "COMMAND_RECEIPTS" "Command receipt IDs cannot be blank") ∧
    (blank id = false → id ∈ seen → P "DUPLICATE_ID" "Duplicate command receipt ID") ∧
    ReceiptsRead P (id :: seen) rest

/-- What the loop reads of the receipts. -/
theorem allowed_receiptLoop {P : String → String → Prop} (index : Nat)
    (seen receipts : List String) :
    Allowed P (receiptLoop index seen receipts) ↔ ReceiptsRead P seen receipts := by
  induction receipts generalizing index seen with
  | nil => simp [receiptLoop, ReceiptsRead]
  | cons id receipts ih =>
      simp only [receiptLoop, ReceiptsRead, allowed_append, ih]
      cases blank id <;> simp

theorem allowed_receiptIssues {P : String → String → Prop} {value : JsValue}
    {receipts : List String} (h : value.get "commandReceipts" = encode receipts) :
    Allowed P (receiptIssues value) ↔ ReceiptsRead P [] receipts := by
  have hu : (encode receipts = JsValue.undefined) = False := by
    rw [eq_iff_iff, iff_false]
    exact fun h => nomatch h
  have ht : (encode receipts).elems.map text = receipts := by
    rw [elems_encode, List.map_map]
    exact List.map_id'' (fun _ => rfl) receipts
  unfold receiptIssues
  simp only [h, hu, if_false, isStringArray_encode, Bool.not_true, Bool.false_eq_true, ht]
  exact allowed_receiptLoop 0 [] receipts

end Head

/-! ## 3. All records -/

section Whole

/-- The value holds the records of the state. -/
structure Holds (value : JsValue) (s : WorkspaceState) : Prop where
  record : value.isRecord = true
  version : value.get "schemaVersion" = encode schemaVersion
  workspace : value.get "workspace" = encode s.workspace
  receipts : value.get "commandReceipts" = encode s.commandReceipts
  locations : value.get "locations" = encode s.locations
  items : value.get "items" = encode s.items
  plans : value.get "plans" = encode s.plans
  activities : (value.get "activities").isArray = true
  audit : (value.get "audit").isArray = true

/-- A state as JSON holds its own records. -/
theorem holds_encode (s : WorkspaceState) : Holds (encode s) s :=
  ⟨rfl, rfl, rfl, rfl, rfl, rfl, rfl, rfl, rfl⟩

/-- What the check of the records of a state asks. -/
@[mk_iff]
structure RecordReads [Host] (P : String → String → Prop) (s : WorkspaceState) : Prop where
  receipts : ReceiptsRead P [] s.commandReceipts
  locations : LocationsRead P [] [] s.locations
  placement : ∀ l ∈ s.locations, PlacementReads P s.locations l
  items : ItemsRead P s.locations [] s.items
  emptied : ∀ l ∈ s.locations, ¬ Emptied s.items s.locations l →
    P "NOT_EMPTY" "A known-empty location cannot contain live records or nested spaces"
  plans : PlansRead P s.locations s.items [] s.plans
  one : 1 < (countedActive s.plans).length →
    P "MULTIPLE_ACTIVE_PLANS" "A workspace can have only one active plan"

variable [Host]

/-- What the checks of the records read. -/
theorem reads_recordIssues {value : JsValue} {s : WorkspaceState} (h : Holds value s) :
    Reads (recordIssues value) (RecordReads · s) := by
  obtain ⟨locations, hlocations, hl⟩ := reads_locationLoop 0 [] [] s.locations
  obtain ⟨items, hitems, hi⟩ := reads_itemLoop s.locations 0 [] s.items
  obtain ⟨plans, hplans, hp⟩ := reads_planLoop s.locations s.items 0 [] s.plans
  unfold recordIssues
  simp only [h.locations, h.items, h.plans, elems_encode, hlocations, hitems, hplans]
  refine ⟨_, rfl, fun P => ?_⟩
  simp only [allowed_append, allowed_issueIf, allowed_receiptIssues h.receipts, hl, hi, hp,
    activePlanCount_encode, decide_eq_true_eq, recordReads_iff, and_assoc]
  rw [allowed_zipIdx (fun l n => allowed_placementIssues P s.locations n l),
    allowed_zipIdx (fun l n => allowed_emptyIssues P s.locations s.items n l)]

omit [Host] in

/-- What the first checks read. -/
theorem allowed_headIssues {P : String → String → Prop} {value : JsValue} {s : WorkspaceState}
    (h : Holds value s) : Allowed P (headIssues value) ↔ WorkspaceReads P s.workspace := by
  unfold headIssues
  rw [allowed_append, allowed_workspaceIssues h.workspace, h.version]
  simp

omit [Host] in

/-- A state has all its lists. -/
theorem arrayIssues_nil {value : JsValue} {s : WorkspaceState} (h : Holds value s) :
    arrayIssues value = [] := by
  have h1 : (encode s.items).isArray = true := rfl
  have h2 : (encode s.locations).isArray = true := rfl
  have h3 : (encode s.plans).isArray = true := rfl
  simp [arrayIssues, issueIf, h.items, h.locations, h.plans, h.activities, h.audit, h1, h2, h3]

end Whole

/-! ## 4. What the history can be found to have -/

section History

/-- The codes of the issues of selections, activities, patches and audit events. -/
def historyCodes : List String :=
  ["ACTIVITY", "AUDIT", "DUPLICATE_ID", "PATCH", "PATCH_PATH", "PATCH_TARGET", "PATCH_VALUE",
    "PLAN_SELECTION", "STRING_REQUIRED"]

/-- The kind admits every issue of the history. -/
def HistoryKind (P : String → String → Prop) : Prop := ∀ code ∈ historyCodes, ∀ m, P code m

variable {P : String → String → Prop}

/-- The checks of the history report only codes of the history. -/
theorem allowed_of_code {code : String} (hP : HistoryKind P) (h : code ∈ historyCodes)
    (c : Bool) (message path : String) : Allowed P (issueIf c code message path) :=
  allowed_issueIf.mpr fun _ => hP code h message

theorem allowed_requireString (hP : HistoryKind P) (v : JsValue) (field path : String) :
    Allowed P (requireString v field path) :=
  allowed_of_code hP (by decide) _ _ _

theorem allowed_identityIssues {code : String} (hP : HistoryKind P) (h : code ∈ historyCodes)
    (v : JsValue) (strings nonblank : List String) (path : String) :
    Allowed P (identityIssues code v strings nonblank path) := by
  unfold identityIssues
  simp only [allowed_append, allowed_flatMap]
  exact ⟨fun f _ => allowed_requireString hP v f path, fun f _ => allowed_of_code hP h _ _ _⟩

theorem allowed_selectionIssues (hP : HistoryKind P) (ls is ps : List JsValue) :
    Allowed P (selectionIssues ls is ps) := by
  unfold selectionIssues
  rw [allowed_flatMap]
  rintro ⟨p, n⟩ _
  simp only
  split
  · exact allowed_nil
  · split
    · exact allowed_of_code hP (by decide) _ _ _
    · exact allowed_nil

variable [Host]

/-- So for one side of a patch. -/
theorem allowed_sideIssues (hP : HistoryKind P) {target : PatchTarget} {patch : JsValue}
    {path side : String} {issues : List ValidationIssue}
    (h : sideIssues target patch path side = .ok issues) : Allowed P issues := by
  unfold sideIssues at h
  split at h
  · cases h
    exact allowed_nil
  · simp only [result_bind_ok, result_pure_ok] at h
    obtain ⟨_, _, rfl⟩ := h
    exact allowed_of_code hP (by decide) _ _ _

/-- So for a patch. -/
theorem allowed_patchIssues (hP : HistoryKind P) {value patch : JsValue} {path : String}
    {issues : List ValidationIssue} (h : patchIssues value path patch = .ok issues) :
    Allowed P issues := by
  have hcode : ∀ code ∈ historyCodes, ∀ (c : Bool) (m p : String),
      Allowed P (issueIf c code m p) := fun _ hc _ _ _ => allowed_of_code hP hc _ _ _
  unfold patchIssues at h
  split at h
  · cases h
    exact hcode _ (by decide) _ _ _
  · simp only [result_bind_ok] at h
    obtain ⟨word, _, h⟩ := h
    cases htarget : targetOf word with
    | none =>
        simp only [htarget] at h
        split at h
        · cases h
        · simp only [result_pure_ok] at h
          subst h
          simp only [allowed_append]
          exact ⟨⟨allowed_requireString hP _ _ _, allowed_requireString hP _ _ _⟩,
            hcode _ (by decide) _ _ _⟩
    | some target =>
        simp only [htarget, result_bind_ok, result_pure_ok] at h
        obtain ⟨before, hbefore, after, hafter, rfl⟩ := h
        simp only [allowed_append]
        exact ⟨⟨⟨⟨⟨⟨allowed_requireString hP _ _ _, allowed_requireString hP _ _ _⟩,
          hcode _ (by decide) _ _ _⟩, hcode _ (by decide) _ _ _⟩, hcode _ (by decide) _ _ _⟩,
          allowed_sideIssues hP hbefore⟩, allowed_sideIssues hP hafter⟩

theorem allowed_patchLoop (hP : HistoryKind P) {value : JsValue} {path : String} {index : Nat}
    {patches : List JsValue} {issues : List ValidationIssue}
    (h : patchLoop value path index patches = .ok issues) : Allowed P issues := by
  induction patches generalizing index issues with
  | nil =>
      cases h
      exact allowed_nil
  | cons p ps ih =>
      simp only [patchLoop, result_bind_ok, result_pure_ok] at h
      obtain ⟨here, hhere, more, hmore, rfl⟩ := h
      exact allowed_append.mpr ⟨allowed_patchIssues hP hhere, ih hmore⟩

/-- So for an activity. -/
theorem allowed_activityIssues (hP : HistoryKind P) {value v : JsValue} {index : Nat}
    {ids : List String} {issues : List ValidationIssue}
    (h : activityIssues value index ids v = .ok issues) : Allowed P issues := by
  have hcode : ∀ code ∈ historyCodes, ∀ (c : Bool) (m p : String),
      Allowed P (issueIf c code m p) := fun _ hc _ _ _ => allowed_of_code hP hc _ _ _
  have hrest : ∀ history, Allowed P history → Allowed P
      (identityIssues "ACTIVITY" v ["id", "actorId", "commandId", "label", "timestamp"]
        ["id", "actorId", "commandId"] s!"$.activities[{index}]" ++
      issueIf (isNonblank (v.get "id") && ids.contains (valueId v)) "DUPLICATE_ID"
        "Duplicate activity id" (s!"$.activities[{index}]" ++ ".id") ++
      issueIf (v.get "status" ≠ .str "applied" && v.get "status" ≠ .str "undone") "ACTIVITY"
        "Invalid activity status" (s!"$.activities[{index}]" ++ ".status") ++
      issueIf (!(v.get "undoneAt").isNullableString) "ACTIVITY"
        "Undone timestamp must be a string or null" (s!"$.activities[{index}]" ++ ".undoneAt") ++
      issueIf (!(v.get "subjectIds").isStringArray) "ACTIVITY" "Subject ids must be strings"
        (s!"$.activities[{index}]" ++ ".subjectIds") ++
      history) := by
    intro history hhistory
    simp only [allowed_append]
    exact ⟨⟨⟨⟨⟨allowed_identityIssues hP (by decide) _ _ _ _, hcode _ (by decide) _ _ _⟩,
      hcode _ (by decide) _ _ _⟩, hcode _ (by decide) _ _ _⟩, hcode _ (by decide) _ _ _⟩,
      hhistory⟩
  unfold activityIssues at h
  by_cases hp : (!(v.get "patches").isArray) = true
  · simp only [if_pos hp] at h
    cases h
    exact hrest _ (hcode _ (by decide) _ _ _)
  · simp only [if_neg hp, result_bind_ok, result_pure_ok] at h
    obtain ⟨history, hhistory, rfl⟩ := h
    exact hrest _ (allowed_patchLoop hP hhistory)

/-- So for all activities. -/
theorem allowed_activityLoop (hP : HistoryKind P) {value : JsValue} {index : Nat}
    {ids : List String} {vs : List JsValue} {issues : List ValidationIssue}
    (h : activityLoop value index ids vs = .ok issues) : Allowed P issues := by
  induction vs generalizing index ids issues with
  | nil =>
      cases h
      exact allowed_nil
  | cons v vs ih =>
      rw [activityLoop] at h
      split at h
      · simp only [result_bind_ok, result_pure_ok] at h
        obtain ⟨more, hmore, rfl⟩ := h
        exact allowed_append.mpr ⟨allowed_of_code hP (by decide) _ _ _, ih hmore⟩
      · simp only [result_bind_ok, result_pure_ok] at h
        obtain ⟨here, hhere, more, hmore, rfl⟩ := h
        exact allowed_append.mpr ⟨allowed_activityIssues hP hhere, ih hmore⟩

/-- So for an event. -/
theorem allowed_auditIssues (hP : HistoryKind P) {activityIds ids : List String} {v : JsValue}
    {index : Nat} {issues : List ValidationIssue}
    (h : auditIssues activityIds index ids v = .ok issues) : Allowed P issues := by
  have hcode : ∀ code ∈ historyCodes, ∀ (c : Bool) (m p : String),
      Allowed P (issueIf c code m p) := fun _ hc _ _ _ => allowed_of_code hP hc _ _ _
  simp only [auditIssues, result_bind_ok, result_pure_ok] at h
  obtain ⟨_, _, rfl⟩ := h
  simp only [allowed_append]
  refine ⟨⟨⟨allowed_identityIssues hP (by decide) _ _ _ _, hcode _ (by decide) _ _ _⟩,
    hcode _ (by decide) _ _ _⟩, ?_⟩
  split
  · exact hcode _ (by decide) _ _ _
  · exact hcode _ (by decide) _ _ _

/-- So for the audit. -/
theorem allowed_auditLoop (hP : HistoryKind P) {activityIds ids : List String} {index : Nat}
    {vs : List JsValue} {issues : List ValidationIssue}
    (h : auditLoop activityIds index ids vs = .ok issues) : Allowed P issues := by
  induction vs generalizing index ids issues with
  | nil =>
      cases h
      exact allowed_nil
  | cons v vs ih =>
      rw [auditLoop] at h
      split at h
      · simp only [result_bind_ok, result_pure_ok] at h
        obtain ⟨more, hmore, rfl⟩ := h
        exact allowed_append.mpr ⟨allowed_of_code hP (by decide) _ _ _, ih hmore⟩
      · simp only [result_bind_ok, result_pure_ok] at h
        obtain ⟨here, hhere, more, hmore, rfl⟩ := h
        exact allowed_append.mpr ⟨allowed_auditIssues hP hhere, ih hmore⟩

end History

/-! ## 5. The whole check -/

section Check

variable [Host] {P : String → String → Prop} {value : JsValue} {s : WorkspaceState}
  {issues : List ValidationIssue}

/-- The issues of the whole check, part by part. -/
theorem validateSnapshot_ok (hs : Holds value s) (h : validateSnapshot value = .ok issues) :
    ∃ records activities audit, recordIssues value = .ok records ∧
      activityLoop value 0 [] (value.get "activities").elems = .ok activities ∧
      auditLoop (activityIdsOf (value.get "activities").elems) 0 []
        (value.get "audit").elems = .ok audit ∧
      issues = headIssues value ++ records ++
        (if (headIssues value ++ records).isEmpty then
          selectionIssues (value.get "locations").elems (value.get "items").elems
            (value.get "plans").elems else []) ++ activities ++ audit := by
  unfold validateSnapshot at h
  simp only [hs.record, arrayIssues_nil hs, Bool.not_true, Bool.false_eq_true, if_false,
    List.isEmpty_nil, result_bind_ok, result_pure_ok] at h
  obtain ⟨records, hrecords, activities, hactivities, audit, haudit, rfl⟩ := h
  exact ⟨records, activities, audit, hrecords, hactivities, haudit, rfl⟩

/-- Issues all of a kind: the records read so. -/
theorem reads_of_allowed (hs : Holds value s) (h : validateSnapshot value = .ok issues)
    (ha : Allowed P issues) : WorkspaceReads P s.workspace ∧ RecordReads P s := by
  obtain ⟨records, activities, audit, hrecords, -, -, rfl⟩ := validateSnapshot_ok hs h
  obtain ⟨issues, hissues, hreads⟩ := reads_recordIssues hs
  obtain rfl : issues = records := Except.ok.inj (hissues.symm.trans hrecords)
  simp only [allowed_append] at ha
  exact ⟨(allowed_headIssues hs).mp ha.1.1.1.1, (hreads P).mp ha.1.1.1.2⟩

/-- Records that read as of a kind that admits the issues of the history: so do all issues. -/
theorem allowed_of_reads (hs : Holds value s) (h : validateSnapshot value = .ok issues)
    (hP : HistoryKind P) (hw : WorkspaceReads P s.workspace) (hr : RecordReads P s) :
    Allowed P issues := by
  obtain ⟨records, activities, audit, hrecords, hactivities, haudit, rfl⟩ :=
    validateSnapshot_ok hs h
  obtain ⟨issues, hissues, hreads⟩ := reads_recordIssues hs
  obtain rfl : issues = records := Except.ok.inj (hissues.symm.trans hrecords)
  simp only [allowed_append]
  refine ⟨⟨⟨⟨(allowed_headIssues hs).mpr hw, (hreads P).mpr hr⟩, ?_⟩,
    allowed_activityLoop hP hactivities⟩, allowed_auditLoop hP haudit⟩
  split
  · exact allowed_selectionIssues hP _ _ _
  · exact allowed_nil

end Check

end Stowplan
