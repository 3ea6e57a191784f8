/-
  File:      Stowplan/Domain/Refusals.lean
  Subject:   THE CODES A COMMAND IS REFUSED WITH.

  A refused command names a code. Only one check of the engine refuses with `REVISION_AHEAD`:
  the one that compares the base revision with the revision of the workspace.

  * `Refuses`: what the codes of a computation have in common, and how it composes;
  * `normalPatches_refuses`, `applyHistoryCommand_refuses`: no change and no replay is refused
    with that code;
  * `applyCommand_refuses`: a command that is not based on a later revision is not refused with
    it either.
-/
import Stowplan.Domain.Commands.Apply

namespace Stowplan

open JsValue Keyed Forest

/-! ## 1. Computations and their codes -/

section Compose

variable {α β : Type} {P : String → Prop}

/-- Every code the computation refuses with has the property. -/
def Refuses (P : String → Prop) (x : Result α) : Prop :=
  ∀ code message, x = .error (.domain code message) → P code

/-- What returns refuses nothing. -/
theorem refuses_ok (a : α) : Refuses P (.ok a : Result α) := fun _ _ h => nomatch h

theorem refuses_pure (a : α) : Refuses P (pure a : Result α) := fun _ _ h => nomatch h

theorem refuses_crash (message : String) : Refuses P (.error (.crash message) : Result α) :=
  fun _ _ h => nomatch h

theorem refuses_conflict (message : String) (conflicts : List SyncConflict) :
    Refuses P (throw (.conflict message conflicts) : Result α) :=
  fun _ _ h => nomatch h

theorem refuses_domain {code message : String} (h : P code) :
    Refuses P (.error (.domain code message) : Result α) := by
  intro c m hc
  cases hc
  exact h

/-- Two steps refuse what either refuses. -/
theorem Refuses.bind {x : Result α} {f : α → Result β} (hx : Refuses P x)
    (hf : ∀ a, Refuses P (f a)) : Refuses P (x >>= f) := by
  intro code message h
  cases x with
  | error e => exact hx code message (congrArg Except.error (Except.error.inj h))
  | ok a => exact hf a code message h

/-- A check refuses with its code. -/
theorem refuses_refuse {c : Bool} {code message : String} (h : P code) :
    Refuses P (refuse c code message) := by
  unfold refuse
  split
  · exact refuses_domain h
  · exact refuses_ok ()

/-- A lookup refuses with its code. -/
theorem refuses_orThrow {v : Option α} {code message : String} (h : P code) :
    Refuses P (orThrow v code message) := by
  unfold orThrow
  split
  · exact refuses_ok _
  · exact refuses_domain h

theorem refuses_checkIf {c : Bool} {x : Result Unit} (h : Refuses P x) :
    Refuses P (checkIf c x) := by
  unfold checkIf
  split
  · exact h
  · exact refuses_ok ()

theorem refuses_ite {c : Prop} [Decidable c] {x y : Result α} (hx : Refuses P x)
    (hy : Refuses P y) : Refuses P (if c then x else y) := by
  split
  · exact hx
  · exact hy

/-- A loop refuses what its body does. -/
theorem refuses_mapM {f : α → Result β} (hf : ∀ a, Refuses P (f a)) (l : List α) :
    Refuses P (l.mapM f) := by
  induction l with
  | nil => exact refuses_pure []
  | cons a l ih =>
      rw [List.mapM_cons]
      exact (hf a).bind fun _ => ih.bind fun _ => refuses_pure _

theorem refuses_forM {f : α → Result Unit} (hf : ∀ a, Refuses P (f a)) (l : List α) :
    Refuses P (l.forM f) := by
  induction l with
  | nil => exact refuses_pure ()
  | cons a l ih => exact (hf a).bind fun _ => ih

end Compose

/-! ## 2. The other codes -/

/-- A code that is not `REVISION_AHEAD`, nor begins a text as that code does. -/
def otherCode (code : String) : Bool := code != "REVISION_AHEAD" && !code.toList.contains ':'

/-- What is thrown carries another code. -/
abbrev RefusesOther {α : Type} (x : Result α) : Prop := Refuses (otherCode · = true) x

section Lookups

variable (s : WorkspaceState)

/-- The lookups throw none of the codes that ask for a review. -/
@[simp] theorem requireLocation_refuses (id : String) : RefusesOther (requireLocation s id) :=
  refuses_orThrow (by decide)

@[simp] theorem requireItem_refuses (id : String) : RefusesOther (requireItem s id) :=
  refuses_orThrow (by decide)

@[simp] theorem requirePlan_refuses (id : String) : RefusesOther (requirePlan s id) :=
  refuses_orThrow (by decide)

@[simp] theorem requireActiveLocation_refuses (id : String) :
    RefusesOther (requireActiveLocation s id) :=
  (requireLocation_refuses s id).bind fun _ =>
    (refuses_refuse (by decide)).bind fun _ => refuses_pure _

@[simp] theorem requireActiveItem_refuses (id : String) :
    RefusesOther (requireActiveItem s id) :=
  (requireItem_refuses s id).bind fun _ =>
    (refuses_refuse (by decide)).bind fun _ => refuses_pure _

@[simp] theorem nextItemVersion_refuses (item : ItemRecord) :
    RefusesOther (nextItemVersion item) :=
  (refuses_refuse (by decide)).bind fun _ => refuses_pure _

@[simp] theorem captureContentsLoop_refuses (checked : List String)
    (changes : List (ContentAction × Option String)) :
    RefusesOther (captureContentsLoop s checked changes) := by
  induction changes generalizing checked with
  | nil => exact refuses_ok ()
  | cons change rest ih =>
      unfold captureContentsLoop
      split
      · exact ih _
      · exact (requireLocation_refuses s _).bind fun _ =>
          (refuses_refuse (by decide)).bind fun _ => ih _

/-- Nor does the check of completed spaces. -/
@[simp] theorem assertCaptureContentsEditable_refuses
    (changes : List (ContentAction × Option String)) :
    RefusesOther (assertCaptureContentsEditable s changes) :=
  captureContentsLoop_refuses s [] changes

@[simp] theorem captureProgressPatches_refuses (locationId timestamp : String) :
    RefusesOther (captureProgressPatches s locationId timestamp) :=
  (requireActiveLocation_refuses s _).bind fun _ => refuses_pure _

@[simp] theorem progressEach_refuses (timestamp : String) (should : Location → Bool)
    (ids : List String) : RefusesOther (progressEach s timestamp should ids) := by
  induction ids with
  | nil => exact refuses_ok []
  | cons id ids ih =>
      exact (requireActiveLocation_refuses s id).bind fun _ => ih.bind fun _ => refuses_pure _

@[simp] theorem assertAllowedChanges_refuses (keys allowed : List String) (action : String) :
    RefusesOther (assertAllowedChanges keys allowed action) := by
  unfold assertAllowedChanges
  split
  · exact refuses_domain (by decide)
  · exact refuses_ok ()

/-- Nor does the check of a selection. -/
@[simp] theorem assertPlanSelection_refuses (plan : MovePlan) (step : Option PlanStep) :
    RefusesOther (assertPlanSelection s plan step) := by
  unfold assertPlanSelection
  split
  · exact refuses_domain (by decide)
  · exact refuses_ok ()

@[simp] theorem refuseNoChanges_refuses (c : Bool) (message : String) :
    RefusesOther (refuseNoChanges c message) :=
  refuses_refuse (by decide)

@[simp] theorem checkNewStep_refuses (plan : MovePlan) (step : PlanStep) :
    RefusesOther (checkNewStep s plan step) := by
  unfold checkNewStep
  refine (assertPlanSelection_refuses s plan _).bind fun _ => ?_
  refine (refuses_refuse (by decide)).bind fun _ => ?_
  refine (requireActiveLocation_refuses s _).bind fun _ => ?_
  refine (requireActiveLocation_refuses s _).bind fun _ => ?_
  refine (refuses_refuse (by decide)).bind fun _ => ?_
  split
  · exact (requireItem_refuses s _).bind fun _ =>
      (refuses_refuse (by decide)).bind fun _ => refuses_refuse (by decide)
  · split
    · exact (requireActiveLocation_refuses s _).bind fun _ =>
        Refuses.bind (refuses_refuse (by decide)) fun _ => refuses_refuse (by decide)
    · exact refuses_domain (by decide)

/-- Nor do those of the steps of a new plan. -/
@[simp] theorem checkNewSteps_refuses (plan : MovePlan) (seen : List String)
    (steps : List PlanStep) : RefusesOther (checkNewSteps s plan seen steps) := by
  induction steps generalizing seen with
  | nil => exact refuses_ok ()
  | cons step rest ih =>
      exact (refuses_refuse (by decide)).bind fun _ => (refuses_refuse (by decide)).bind fun _ =>
        (checkNewStep_refuses s plan step).bind fun _ => ih _

@[simp] theorem assertPlanCanActivate_refuses (plan : MovePlan) :
    RefusesOther (assertPlanCanActivate s plan) := by
  refine (assertPlanSelection_refuses s plan _).bind fun _ => ?_
  refine (refuses_refuse (by decide)).bind fun _ => (refuses_refuse (by decide)).bind fun _ => ?_
  refine refuses_forM (fun step => ?_) _
  unfold checkActiveStep
  refine (assertPlanSelection_refuses s plan _).bind fun _ => ?_
  refine (requireActiveLocation_refuses s _).bind fun _ => ?_
  refine (requireActiveLocation_refuses s _).bind fun _ => ?_
  refine (refuses_refuse (by decide)).bind fun _ => ?_
  split
  · exact (requireItem_refuses s _).bind fun _ => refuses_refuse (by decide)
  · split
    · exact (requireActiveLocation_refuses s _).bind fun _ => refuses_refuse (by decide)
    · exact refuses_domain (by decide)

end Lookups

/-! ## 3. Patches -/

section Paths

/-- A path is refused as a patch that is not valid. -/
@[simp] theorem pathKeys_refuses (path : String) : RefusesOther (pathKeys path) := by
  unfold pathKeys
  split
  · exact refuses_ok _
  · exact refuses_domain (by decide)

theorem readKeys_refuses (keys : List String) (v : JsValue) : RefusesOther (readKeys v keys) := by
  induction keys generalizing v with
  | nil => exact refuses_ok v
  | cons key rest ih =>
      unfold readKeys
      split
      · exact refuses_ok _
      · split
        · split
          · exact refuses_crash _
          · exact refuses_ok _
        · exact ih _

@[simp] theorem readPatchValue_refuses (s : WorkspaceState) (target : PatchTarget)
    (id path : String) : RefusesOther (readPatchValue s target id path) := by
  unfold readPatchValue readPath
  split
  · exact refuses_ok _
  · exact (pathKeys_refuses path).bind fun keys => readKeys_refuses keys _

theorem writePath_refuses (entity value : JsValue) (path : String) :
    RefusesOther (writePath entity path value) := by
  refine (pathKeys_refuses path).bind fun keys => ?_
  split
  · exact refuses_ok _
  · exact refuses_crash _

theorem decodeRecord_refuses {α : Type} [Codec α] (v : JsValue) :
    RefusesOther (decodeRecord α v) := by
  unfold decodeRecord
  split
  · exact refuses_ok _
  · exact refuses_crash _

theorem targetMissing_refuses {α : Type} (p : FieldPatch) :
    RefusesOther (.error (targetMissing p) : Result α) :=
  refuses_domain (by decide)

/-- Patches of records throw other codes. -/
theorem patchCollection_refuses {α : Type} [Entity α] (records : List α) (p : FieldPatch) :
    RefusesOther (patchCollection records p) := by
  unfold patchCollection
  split
  · split
    · exact refuses_ok _
    · refine (decodeRecord_refuses _).bind fun next => ?_
      split
      · exact refuses_ok _
      · exact refuses_ok _
  · split
    · exact targetMissing_refuses p
    · exact (writePath_refuses _ _ _).bind fun _ =>
        (decodeRecord_refuses _).bind fun _ => refuses_ok _

theorem patchWorkspace_refuses (w : Workspace) (p : FieldPatch) :
    RefusesOther (patchWorkspace w p) := by
  unfold patchWorkspace
  split
  · split
    · exact refuses_domain (by decide)
    · exact decodeRecord_refuses _
  · split
    · exact (writePath_refuses _ _ _).bind fun _ => decodeRecord_refuses _
    · exact targetMissing_refuses p

theorem applyFieldPatch_refuses (s : WorkspaceState) (p : FieldPatch) :
    RefusesOther (applyFieldPatch s p) := by
  unfold applyFieldPatch
  split
  · exact (patchWorkspace_refuses _ p).bind fun _ => refuses_pure _
  all_goals exact (patchCollection_refuses _ p).bind fun _ => refuses_pure _

/-- So do lists of patches. -/
@[simp] theorem applyPatches_refuses (s : WorkspaceState) (ps : List FieldPatch) :
    RefusesOther (applyPatches s ps) := by
  induction ps generalizing s with
  | nil => exact refuses_ok s
  | cons p ps ih => exact (applyFieldPatch_refuses s p).bind fun t => ih t

end Paths

/-! ## 4. The changes -/

section Changes

variable [Host] (s : WorkspaceState) (env : CommandEnvelope)

/-- The check of a location throws other codes. -/
@[simp] theorem validateLocation_refuses (location : Location) (ignoreId : Option String) :
    RefusesOther (validateLocation s location ignoreId) := by
  unfold validateLocation
  repeat' first
    | with_reducible exact refuses_refuse (by decide)
    | with_reducible exact refuses_pure _
    | with_reducible refine Refuses.bind ?_ fun _ => ?_
    | split
    | simp

omit [Host] in

/-- The check of an item throws other codes. -/
@[simp] theorem validateItem_refuses (item : ItemRecord) : RefusesOther (validateItem s item) := by
  unfold validateItem
  repeat' first
    | with_reducible exact refuses_refuse (by decide)
    | with_reducible refine Refuses.bind ?_ fun _ => ?_
  exact refuses_checkIf ((requireActiveLocation_refuses s _).bind fun _ => refuses_pure _)

/-- A move throws other codes. -/
@[simp] theorem moveItemPatches_refuses (item : ItemRecord) (destinationId : String)
    (quantity : JsNumber) (envelopeId timestamp : String) :
    RefusesOther (moveItemPatches s item destinationId quantity envelopeId timestamp) := by
  unfold moveItemPatches
  repeat' first
    | with_reducible exact refuses_refuse (by decide)
    | with_reducible exact refuses_pure _
    | with_reducible refine Refuses.bind ?_ fun _ => ?_
    | simp; done
    | split
    | dsimp only

omit [Host] in
@[simp] theorem checkImported_refuses (seen : List String) (items : List ItemRecord) :
    RefusesOther (checkImported s seen items) := by
  induction items generalizing seen with
  | nil => exact refuses_ok ()
  | cons item rest ih =>
      exact (validateItem_refuses s item).bind fun _ => (refuses_refuse (by decide)).bind fun _ =>
        (refuses_refuse (by decide)).bind fun _ => ih _

omit [Host] in

/-- A bulk update throws other codes. -/
@[simp] theorem bulkUpdateLoop_refuses (seen : List String) (updates : List BulkUpdate) :
    RefusesOther (bulkUpdateLoop s env seen updates) := by
  induction updates generalizing seen with
  | nil => exact refuses_ok _
  | cons update rest ih =>
      refine (refuses_refuse (by decide)).bind fun _ => (refuses_refuse (by decide)).bind fun _ =>
        (requireActiveItem_refuses s _).bind fun _ =>
        (requireActiveLocation_refuses s _).bind fun _ => (validateItem_refuses s _).bind fun _ => ?_
      dsimp only
      split
      · exact ih _
      · exact (nextItemVersion_refuses _).bind fun _ => (ih _).bind fun _ => refuses_pure _

omit [Host] in
@[simp] theorem movableIds_refuses (destinationId : String) (ids : List String) :
    RefusesOther (movableIds s destinationId ids) := by
  induction ids with
  | nil => exact refuses_ok []
  | cons id ids ih =>
      exact (requireActiveItem_refuses s id).bind fun _ => ih.bind fun _ => refuses_pure _

/-- A bulk move throws other codes. -/
@[simp] theorem bulkMoveLoop_refuses (destinationId : String) (working : WorkspaceState)
    (ids : List String) : RefusesOther (bulkMoveLoop env destinationId working ids) := by
  induction ids generalizing working with
  | nil => exact refuses_ok []
  | cons id ids ih =>
      exact (requireActiveItem_refuses working id).bind fun _ =>
        (moveItemPatches_refuses working _ _ _ _ _).bind fun _ =>
        (applyPatches_refuses working _).bind fun t => (ih t).bind fun _ => refuses_pure _

/-- **No change is refused with `REVISION_AHEAD`.** -/
theorem normalPatches_refuses : RefusesOther (normalPatches s env) := by
  unfold normalPatches workspaceRename locationCreate locationUpdate locationMove locationReorder
    locationArchive locationDelete captureEmpty captureStatus itemCreate itemBulkCreate itemUpdate
    itemBulkUpdate itemReorder itemDelete itemMove itemBulkMove planCreate planStepComplete
    planStatus stepPatches parentProgress moveProgress moveCaptureProgressPatches
    bulkMoveCaptureProgressPatches bulkCreateCaptureProgressPatches
  split
  all_goals repeat' first
    | with_reducible exact refuses_refuse (by decide)
    | with_reducible exact refuses_orThrow (by decide)
    | with_reducible exact refuses_domain (by decide)
    | with_reducible exact refuses_ok _
    | with_reducible exact refuses_pure _
    | with_reducible refine refuses_checkIf ?_
    | with_reducible refine refuses_mapM (fun _ => ?_) _
    | with_reducible refine Refuses.bind ?_ fun _ => ?_
    | simp; done
    | split

end Changes

/-! ## 5. The check of a snapshot -/

section Snapshot

variable [Host] {α : Type} {P : String → Prop}

omit [Host] in
theorem refuses_andThen {a : Bool} {b : Result Bool} (h : Refuses P b) :
    Refuses P (andThen a b) := by
  unfold andThen
  split
  · exact h
  · exact refuses_ok false

/-- The validation of a snapshot throws no domain error: it may only crash on a value without a
    text. -/
theorem textOf_refuses (value : JsValue) : Refuses P (textOf value) := by
  unfold textOf
  split
  · exact refuses_ok _
  · exact refuses_crash _

theorem oneOf_refuses (words : List String) (value : JsValue) : Refuses P (oneOf words value) :=
  (textOf_refuses value).bind fun _ => refuses_pure _

theorem validConditions_refuses (value : JsValue) : Refuses P (validConditions value) :=
  refuses_andThen ((oneOf_refuses _ _).bind fun _ => refuses_andThen (oneOf_refuses _ _))

theorem validFullPatchRecord_refuses (target : PatchTarget) (value : JsValue) (id : String) :
    Refuses P (validFullPatchRecord target value id) := by
  refine refuses_andThen ?_
  cases target with
  | location =>
      exact refuses_andThen ((oneOf_refuses _ _).bind fun _ => refuses_andThen
        ((oneOf_refuses _ _).bind fun _ => refuses_andThen
          (refuses_andThen (validConditions_refuses _))))
  | item =>
      exact refuses_andThen ((oneOf_refuses _ _).bind fun _ => refuses_andThen (refuses_ok _))
  | plan =>
      exact refuses_andThen ((oneOf_refuses _ _).bind fun _ => refuses_andThen (refuses_ok _))
  | workspace => exact refuses_ok false

/-- So for the values of patches. -/
theorem validPatchValue_refuses (target : PatchTarget) (path : String) (value : JsValue)
    (id : String) : Refuses P (validPatchValue target path value id) := by
  unfold validPatchValue
  repeat' first
    | with_reducible exact refuses_ok _
    | with_reducible exact oneOf_refuses _ _
    | with_reducible exact validConditions_refuses _
    | with_reducible exact validFullPatchRecord_refuses _ _ _
    | with_reducible refine refuses_ite ?_ ?_

theorem locationIssues_refuses (index : Nat) (ids codes : List String) (candidate : JsValue) :
    Refuses P (locationIssues index ids codes candidate) := by
  refine (oneOf_refuses _ _).bind fun _ => (oneOf_refuses _ _).bind fun _ => ?_
  refine Refuses.bind ?_ fun _ => refuses_pure _
  unfold conditionIssues
  split
  · exact refuses_ok _
  · exact (oneOf_refuses _ _).bind fun _ => (oneOf_refuses _ _).bind fun _ => refuses_pure _

/-- So for the locations. -/
theorem locationLoop_refuses (index : Nat) (ids codes : List String) (locations : List JsValue) :
    Refuses P (locationLoop index ids codes locations) := by
  induction locations generalizing index ids codes with
  | nil => exact refuses_ok []
  | cons candidate rest ih =>
      unfold locationLoop
      split
      · exact (ih _ _ _).bind fun _ => refuses_pure _
      · exact (locationIssues_refuses _ _ _ _).bind fun _ =>
          (ih _ _ _).bind fun _ => refuses_pure _

theorem itemIssues_refuses (locations : List JsValue) (index : Nat) (ids : List String)
    (candidate : JsValue) : Refuses P (itemIssues locations index ids candidate) := by
  unfold itemIssues
  dsimp only
  refine refuses_ite ?_ ((textOf_refuses _).bind fun _ => ?_)
  all_goals exact (refuses_ok _).bind fun _ => (oneOf_refuses _ _).bind fun _ => refuses_pure _

/-- So for the items. -/
theorem itemLoop_refuses (locations : List JsValue) (index : Nat) (ids : List String)
    (items : List JsValue) : Refuses P (itemLoop locations index ids items) := by
  induction items generalizing index ids with
  | nil => exact refuses_ok []
  | cons candidate rest ih =>
      unfold itemLoop
      split
      · exact (ih _ _).bind fun _ => refuses_pure _
      · exact (itemIssues_refuses _ _ _ _).bind fun _ => (ih _ _).bind fun _ => refuses_pure _

/-- So for the plans. -/
theorem planLoop_refuses (locations items : List JsValue) (index : Nat) (ids : List String)
    (plans : List JsValue) : Refuses P (planLoop locations items index ids plans) := by
  induction plans generalizing index ids with
  | nil => exact refuses_ok []
  | cons candidate rest ih =>
      unfold planLoop
      split
      · exact (ih _ _).bind fun _ => refuses_pure _
      · refine Refuses.bind ?_ fun _ => (ih _ _).bind fun _ => refuses_pure _
        exact (oneOf_refuses _ _).bind fun _ => refuses_pure _

theorem patchIssues_refuses (value : JsValue) (path : String) (p : JsValue) :
    Refuses P (patchIssues value path p) := by
  have hside : ∀ target side, Refuses P (sideIssues target p path side) := by
    intro target side
    unfold sideIssues
    split
    · exact refuses_ok []
    · exact (validPatchValue_refuses _ _ _ _).bind fun _ => refuses_pure _
  unfold patchIssues
  split
  · exact refuses_ok _
  · refine (textOf_refuses _).bind fun word => ?_
    dsimp only
    split
    · split
      · exact refuses_crash _
      · exact refuses_pure _
    · exact (hside _ _).bind fun _ => (hside _ _).bind fun _ => refuses_pure _

theorem patchLoop_refuses (value : JsValue) (path : String) (index : Nat) (ps : List JsValue) :
    Refuses P (patchLoop value path index ps) := by
  induction ps generalizing index with
  | nil => exact refuses_ok []
  | cons p ps ih =>
      exact (patchIssues_refuses value _ p).bind fun _ => (ih _).bind fun _ => refuses_pure _

/-- So for the activities. -/
theorem activityLoop_refuses (value : JsValue) (index : Nat) (ids : List String)
    (activities : List JsValue) : Refuses P (activityLoop value index ids activities) := by
  induction activities generalizing index ids with
  | nil => exact refuses_ok []
  | cons candidate rest ih =>
      unfold activityLoop
      split
      · exact (ih _ _).bind fun _ => refuses_pure _
      · refine Refuses.bind ?_ fun _ => (ih _ _).bind fun _ => refuses_pure _
        unfold activityIssues
        dsimp only
        refine refuses_ite ((refuses_ok _).bind fun _ => refuses_pure _) ?_
        exact (patchLoop_refuses value _ _ _).bind fun _ => refuses_pure _

/-- So for the audit. -/
theorem auditLoop_refuses (activityIds : List String) (index : Nat) (ids : List String)
    (audit : List JsValue) : Refuses P (auditLoop activityIds index ids audit) := by
  induction audit generalizing index ids with
  | nil => exact refuses_ok []
  | cons candidate rest ih =>
      unfold auditLoop
      split
      · exact (ih _ _).bind fun _ => refuses_pure _
      · refine Refuses.bind ?_ fun _ => (ih _ _).bind fun _ => refuses_pure _
        exact (oneOf_refuses _ _).bind fun _ => refuses_pure _

/-- The check of a snapshot refuses nothing: it lists issues. -/
theorem validateSnapshot_refuses (value : JsValue) : Refuses P (validateSnapshot value) := by
  unfold validateSnapshot
  split
  · exact refuses_ok _
  · split
    · exact refuses_ok _
    · refine Refuses.bind ?_ fun _ => (activityLoop_refuses _ _ _ _).bind fun _ =>
        (auditLoop_refuses _ _ _ _).bind fun _ => refuses_pure _
      exact (locationLoop_refuses _ _ _ _).bind fun _ => (itemLoop_refuses _ _ _ _).bind fun _ =>
        (planLoop_refuses _ _ _ _ _).bind fun _ => refuses_pure _

end Snapshot

/-! ## 6. The engine -/

section Engine

variable [Host] (s : WorkspaceState) (env : CommandEnvelope)

omit [Host] in

/-- The conflicts of a replay throw other codes. -/
theorem historyConflictsLoop_refuses (direction : Direction) (commandId : String)
    (working : WorkspaceState) (ps : List FieldPatch) :
    RefusesOther (historyConflictsLoop direction commandId working ps) := by
  induction ps generalizing working with
  | nil => exact refuses_ok []
  | cons p ps ih =>
      refine (readPatchValue_refuses working _ _ _).bind fun current => ?_
      split
      · exact (ih working).bind fun _ => refuses_pure _
      · exact (applyFieldPatch_refuses working p).bind fun t => ih t

omit [Host] in
theorem touchItems_refuses (timestamp : String) (items : List ItemRecord) (ids : List String) :
    RefusesOther (touchItems timestamp items ids) := by
  induction ids generalizing items with
  | nil => exact refuses_ok items
  | cons id ids ih =>
      unfold touchItems
      split
      · exact ih items
      · exact (nextItemVersion_refuses _).bind fun _ => ih _

omit [Host] in

/-- A replay throws other codes. -/
theorem replayActivities_refuses (direction : Direction) (working : WorkspaceState)
    (as : List ActivityRecord) : RefusesOther (replayActivities direction env working as) := by
  induction as generalizing working with
  | nil => exact refuses_ok working
  | cons a as ih =>
      refine Refuses.bind ?_ fun t => ih t
      refine (refuses_refuse (by decide)).bind fun _ => ?_
      refine (historyConflictsLoop_refuses _ _ _ _).bind fun _ => ?_
      refine (refuses_checkIf (refuses_conflict _ _)).bind fun _ => ?_
      refine (applyPatches_refuses _ _).bind fun _ => Refuses.bind ?_ fun _ => refuses_pure _
      exact (touchItems_refuses _ _ _).bind fun _ => refuses_pure _

/-- An undo or redo throws other codes. -/
theorem applyHistoryAction_refuses (type : AuditType) (as : List ActivityRecord) :
    RefusesOther (applyHistoryAction s env type as) := by
  refine (validateSnapshot_refuses _).bind fun _ => (replayActivities_refuses env _ _ _).bind
    fun _ => (validateSnapshot_refuses _).bind fun _ => ?_
  split
  · exact refuses_domain (by decide)
  · exact refuses_pure _

/-- **No replay is refused with `REVISION_AHEAD`.** -/
theorem applyHistoryCommand_refuses : RefusesOther (applyHistoryCommand s env) := by
  unfold applyHistoryCommand
  split
  · exact (refuses_orThrow (by decide)).bind fun _ => applyHistoryAction_refuses s env _ _
  · exact (refuses_orThrow (by decide)).bind fun _ => applyHistoryAction_refuses s env _ _
  · exact (refuses_refuse (by decide)).bind fun _ => (refuses_refuse (by decide)).bind fun _ =>
      applyHistoryAction_refuses s env _ _
  · exact (refuses_refuse (by decide)).bind fun _ => (refuses_refuse (by decide)).bind fun _ =>
      applyHistoryAction_refuses s env _ _
  · exact refuses_domain (by decide)

omit [Host] in

/-- Conflicts of expectations are no refusals of this kind. -/
theorem expectationConflicts_refuses (commandId : String) (es : List FieldExpectation) :
    RefusesOther (expectationConflicts s commandId es) := by
  induction es with
  | nil => exact refuses_ok []
  | cons e es ih =>
      exact (readPatchValue_refuses s _ _ _).bind fun _ => ih.bind fun _ => refuses_pure _

/-- The check of the envelope throws other codes. -/
theorem validateEnvelopeRuntime_refuses : RefusesOther (validateEnvelopeRuntime env) := by
  refine (refuses_refuse (by decide)).bind fun _ => ?_
  induction env.expectations with
  | nil => exact refuses_ok ()
  | cons e es ih =>
      exact (refuses_refuse (by decide)).bind fun _ => (refuses_checkIf
        ((pathKeys_refuses _).bind fun _ => refuses_pure _)).bind fun _ => ih

/-- **A command that is not based on a later revision is not refused with `REVISION_AHEAD`**, nor
    with a code that begins as that one does. -/
theorem applyCommand_refuses (h : env.baseRevision ≤ s.workspace.revision) :
    RefusesOther (applyCommand s env) := by
  unfold applyCommand
  dsimp only
  have hahead : RefusesOther (refuse (decide (s.workspace.revision <
      (normalizeCommandEnvelope env).baseRevision)) "REVISION_AHEAD"
      "Command was created from a future workspace revision") := by
    have hbase : ¬ s.workspace.revision < (normalizeCommandEnvelope env).baseRevision :=
      not_lt.mpr h
    rw [decide_eq_false hbase]
    exact refuses_ok ()
  have hcheck : RefusesOther (checkEnvelope s (normalizeCommandEnvelope env)) :=
    (validateEnvelopeRuntime_refuses _).bind fun _ => (refuses_refuse (by decide)).bind fun _ =>
      (refuses_refuse (by decide)).bind fun _ => hahead.bind fun _ =>
      (expectationConflicts_refuses s _ _).bind fun _ => refuses_checkIf (refuses_conflict _ _)
  refine hcheck.bind fun _ => ?_
  split
  · exact applyHistoryCommand_refuses s _
  · exact (normalPatches_refuses s _).bind fun _ => (applyPatches_refuses s _).bind
      fun _ => refuses_pure _

end Engine

end Stowplan
