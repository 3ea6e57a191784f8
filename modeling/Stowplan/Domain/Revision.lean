/-
  File:      Stowplan/Domain/Revision.lean
  Subject:   THE REVISION COUNTS ACCEPTED COMMANDS.

  No patch of the engine touches the revision: a change patches records, or the name of the
  workspace, and a replay is accepted only when every recorded patch of the workspace is about
  its name.

  * `normalPatches_named`: the patches of a change;
  * `Replayed.named`: the patches of the activities a replay may replay;
  * `applyCommand_revision`: an accepted command moves the revision on by one.
-/
import Stowplan.Domain.RecordGraph

namespace Stowplan

open Keyed JsValue

/-! ## 1. Patches that leave the counter alone -/

/-- Of the workspace the patches change the name only. -/
def Named (ps : List FieldPatch) : Prop := ∀ p ∈ ps, p.target = .workspace → p.path = "name"

@[simp] theorem named_nil : Named [] := fun _ h => absurd h List.not_mem_nil

/-- A patch of the workspace is one of its name. -/
@[simp] theorem named_cons {p : FieldPatch} {ps : List FieldPatch} :
    Named (p :: ps) ↔ (p.target = .workspace → p.path = "name") ∧ Named ps := by
  simp [Named]

@[simp] theorem named_append {ps qs : List FieldPatch} :
    Named (ps ++ qs) ↔ Named ps ∧ Named qs := by
  simp only [Named, List.mem_append, or_imp, forall_and]

@[simp] theorem patch_target (target : PatchTarget) (id path : String) (before after : JsValue) :
    (patch target id path before after).target = target := rfl

@[simp] theorem patch_path (target : PatchTarget) (id path : String) (before after : JsValue) :
    (patch target id path before after).path = path := rfl

/-- Patches of records are not about the workspace. -/
theorem named_map {α : Type} {f : α → FieldPatch} {t : PatchTarget}
    (hf : ∀ a, (f a).target = t) (ht : t ≠ .workspace) (l : List α) :
    Named (l.map f) := by
  intro p hp hw
  obtain ⟨a, -, rfl⟩ := List.mem_map.mp hp
  exact absurd ((hf a).symm.trans hw) ht

/-- The identity of a workspace: what a change of its name leaves. -/
structure SameWorkspace (w v : Workspace) : Prop where
  createdAt : v.createdAt = w.createdAt
  id : v.id = w.id
  revision : v.revision = w.revision

theorem SameWorkspace.refl (w : Workspace) : SameWorkspace w w := ⟨rfl, rfl, rfl⟩

theorem SameWorkspace.trans {u v w : Workspace} (h : SameWorkspace u v) (h' : SameWorkspace v w) :
    SameWorkspace u w :=
  ⟨h'.createdAt.trans h.createdAt, h'.id.trans h.id, h'.revision.trans h.revision⟩

/-- A patch of the name leaves the rest of the workspace. -/
theorem patchWorkspace_named {w v : Workspace} {p : FieldPatch} (hp : p.path = "name")
    (h : patchWorkspace w p = .ok v) : SameWorkspace w v := by
  have hkeys : pathKeys "name" = .ok ["name"] := by decide +kernel
  unfold patchWorkspace at h
  rw [hp, if_neg (by decide)] at h
  split at h
  · simp only [writePath, hkeys, result_bind_ok] at h
    obtain ⟨u, ⟨_, hk, hu⟩, hv⟩ := h
    cases hk
    simp only [writeKeys, writeKey, encode] at hu
    split at hu
    · cases hu
      simp [decodeRecord, decode, field, lookup, delKey] at hv
    · cases hu
      simp only [decodeRecord, decode, field, setKey, setEntry] at hv
      revert hv
      cases p.after with
      | str name =>
          intro hv
          simp [lookup, JsNumber.toInt?_ofInt] at hv
          subst hv
          exact ⟨rfl, rfl, rfl⟩
      | _ => simp [lookup, JsNumber.toInt?_ofInt]
  · cases h

/-- So does a patch of the state, if it is named. -/
theorem applyFieldPatch_named {s t : WorkspaceState} {p : FieldPatch}
    (hp : p.target = .workspace → p.path = "name") (h : applyFieldPatch s p = .ok t) :
    SameWorkspace s.workspace t.workspace := by
  unfold applyFieldPatch at h
  cases htarget : p.target with
  | workspace =>
      simp only [htarget, result_bind_ok, result_pure_ok] at h
      obtain ⟨w, hw, rfl⟩ := h
      exact patchWorkspace_named (hp htarget) hw
  | _ =>
      simp only [htarget, result_bind_ok, result_pure_ok] at h
      obtain ⟨_, -, rfl⟩ := h
      exact .refl _

/-- So do several. -/
theorem applyPatches_named {s t : WorkspaceState} {ps : List FieldPatch} (hp : Named ps)
    (h : applyPatches s ps = .ok t) : SameWorkspace s.workspace t.workspace := by
  induction ps generalizing s with
  | nil =>
      cases h
      exact .refl _
  | cons p ps ih =>
      simp only [applyPatches, result_bind_ok] at h
      obtain ⟨u, hu, h⟩ := h
      rw [named_cons] at hp
      exact (applyFieldPatch_named hp.1 hu).trans (ih hp.2 h)

/-! ## 2. The patches of a change -/

/-- The patches of discarded plans are not about the workspace. -/
theorem named_invalidation (s : WorkspaceState) (items locations : List String) :
    Named (planInvalidationPatches s items locations) :=
  named_map (t := .plan) (fun _ => rfl) (by decide) _

@[simp] theorem named_progressPatches (l : Location) (timestamp : String) :
    Named (progressPatches l timestamp) := by
  simp [progressPatches]

/-- Nor are those of spaces in progress. -/
theorem named_captureProgress {s : WorkspaceState} {id timestamp : String}
    {ps : List FieldPatch} (h : captureProgressPatches s id timestamp = .ok ps) : Named ps := by
  simp only [captureProgressPatches, result_bind_ok, result_pure_ok] at h
  obtain ⟨l, -, rfl⟩ := h
  split <;> simp

theorem named_progressEach {s : WorkspaceState} {timestamp : String} {should : Location → Bool}
    {ids : List String} {ps : List FieldPatch} (h : progressEach s timestamp should ids = .ok ps) :
    Named ps := by
  induction ids generalizing ps with
  | nil =>
      cases h
      exact named_nil
  | cons id ids ih =>
      simp only [progressEach, result_bind_ok, result_pure_ok] at h
      obtain ⟨l, -, rest, hrest, rfl⟩ := h
      rw [named_append]
      refine ⟨?_, ih hrest⟩
      split <;> simp

@[simp] theorem named_quantityPatches (i : ItemRecord) (quantity : JsNumber) (timestamp : String)
    (version : Int) : Named (quantityPatches i quantity timestamp version) := by
  simp [quantityPatches]

section Changes

variable [Host] {s : WorkspaceState} {env : CommandEnvelope}

/-- Nor are those of a moved item. -/
theorem named_moveItem {i : ItemRecord} {destinationId id timestamp : String}
    {quantity : JsNumber} {ps : List FieldPatch}
    (h : moveItemPatches s i destinationId quantity id timestamp = .ok ps) : Named ps := by
  simp only [moveItemPatches, result_bind_ok] at h
  obtain ⟨_, -, _, -, _, -, h⟩ := h
  split at h
  · simp only [result_bind_ok] at h
    obtain ⟨_, -, _, -, h⟩ := h
    split at h
    · rw [result_pure_ok] at h
      subst h
      simp
    · simp only [result_bind_ok, result_pure_ok] at h
      obtain ⟨_, -, rfl⟩ := h
      simp
  · split at h
    · simp only [result_bind_ok, result_pure_ok] at h
      obtain ⟨_, -, rfl⟩ := h
      simp
    · simp only [result_bind_ok, result_pure_ok] at h
      obtain ⟨_, -, _, -, rfl⟩ := h
      simp

theorem named_bulkMoveLoop {destinationId : String} {ids : List String} {ps : List FieldPatch}
    (h : bulkMoveLoop env destinationId s ids = .ok ps) : Named ps := by
  induction ids generalizing s ps with
  | nil =>
      cases h
      exact named_nil
  | cons id ids ih =>
      simp only [bulkMoveLoop, result_bind_ok, result_pure_ok] at h
      obtain ⟨_, -, _, hmove, _, -, _, hmore, rfl⟩ := h
      exact named_append.mpr ⟨named_moveItem hmove, ih hmore⟩

omit [Host] in
theorem named_itemFields (i : ItemRecord) (es : List ItemEntry) (timestamp : String)
    (version : Int) : Named (itemFieldPatches i es timestamp version) := by
  have := named_map (f := fun e : ItemEntry => patch .item i.id e.key (e.here i).value e.value)
    (fun _ => rfl) (by decide) es
  simp [itemFieldPatches, this]

omit [Host] in

/-- Nor are those of a bulk update. -/
theorem named_bulkUpdateLoop {seen : List String} {updates : List BulkUpdate}
    {is : List ItemRecord} {ps : List FieldPatch}
    (h : bulkUpdateLoop s env seen updates = .ok (is, ps)) : Named ps := by
  induction updates generalizing seen is ps with
  | nil =>
      cases h
      exact named_nil
  | cons update updates ih =>
      simp only [bulkUpdateLoop, result_bind_ok] at h
      obtain ⟨_, -, _, -, _, -, _, -, _, -, h⟩ := h
      split at h
      · exact ih h
      · simp only [result_bind_ok, result_pure_ok] at h
        obtain ⟨_, -, ⟨_, _⟩, hmore, h⟩ := h
        cases h
        exact named_append.mpr ⟨named_itemFields _ _ _ _, ih hmore⟩

/-- Nor are those of a plan step. -/
theorem named_stepPatches {step : PlanStep} {ps : List FieldPatch}
    (h : stepPatches s env step = .ok ps) : Named ps := by
  unfold stepPatches at h
  split at h
  · simp only [result_bind_ok, result_pure_ok] at h
    obtain ⟨_, -, _, -, _, -, _, -, _, hmove, _, hprogress, rfl⟩ := h
    exact named_append.mpr ⟨named_moveItem hmove, named_progressEach hprogress⟩
  · split at h
    · simp only [result_bind_ok, result_pure_ok] at h
      obtain ⟨_, -, _, -, _, -, _, -, _, hprogress, rfl⟩ := h
      simp [named_progressEach hprogress]
    · cases h

omit [Host] in
theorem named_parentProgress {source destination : Option String} {reopen : Bool}
    {ps : List FieldPatch} (h : parentProgress s env source destination reopen = .ok ps) :
    Named ps := by
  unfold parentProgress at h
  split at h
  · exact named_progressEach h
  · split at h
    · exact named_captureProgress h
    · cases h
      exact named_nil

omit [Host] in
theorem named_moveProgress {sources : List String} {destination : String} {reopen : Bool}
    {ps : List FieldPatch} (h : moveProgress s env sources destination reopen = .ok ps) :
    Named ps := by
  unfold moveProgress at h
  split at h
  · exact named_progressEach h
  · exact named_captureProgress h

omit [Host] in
/-- Patches made only where there is something to do. -/
theorem named_ite {c : Prop} [Decidable c] {ps : List FieldPatch} (h : c → Named ps) :
    Named (if c then ps else []) := by
  split
  · exact h ‹_›
  · exact named_nil

variable {change : Change}

omit [Host] in

/-- The rename is the only command with a patch of the workspace, and it is one of the name. -/
theorem workspaceRename_named {name : String} (h : workspaceRename s name = .ok change) :
    Named change.patches := by
  simp only [workspaceRename, result_bind_ok, result_pure_ok] at h
  obtain ⟨_, -, _, -, rfl⟩ := h
  simp

/-- The patches of every other command are about records. -/
theorem locationCreate_named {l : Location} (h : locationCreate s env l = .ok change) :
    Named change.patches := by
  simp only [locationCreate, result_bind_ok, result_pure_ok] at h
  obtain ⟨_, -, _, -, progress, hprogress, rfl⟩ := h
  have hp : Named progress := by
    split at hprogress
    · exact named_captureProgress hprogress
    · cases hprogress
      exact named_nil
  simp only [named_append, named_cons, named_nil, patch_target, reduceCtorEq, false_implies,
    and_true]
  exact ⟨named_ite fun _ => named_invalidation _ _ _, hp⟩

theorem locationUpdate_named {id : String} {changes : LocationChanges} {reopen : Bool}
    (h : locationUpdate s env id changes reopen = .ok change) : Named change.patches := by
  simp only [locationUpdate, result_bind_ok, result_pure_ok] at h
  obtain ⟨l, -, _, -, _, -, _, -, _, -, progress, hprogress, _, -, rfl⟩ := h
  have hp : Named progress := by
    split at hprogress
    · exact named_parentProgress hprogress
    · cases hprogress
      exact named_nil
  simp only [named_append, named_cons, named_nil, patch_target, reduceCtorEq, false_implies,
    and_true]
  exact ⟨⟨named_map (t := .location) (fun _ => rfl) (by decide) _, named_ite fun _ => named_invalidation _ _ _⟩,
    named_ite fun _ => hp⟩

omit [Host] in
theorem locationMove_named {id : String} {parentId : Option String} {order : Option JsNumber}
    {reopen : Bool} (h : locationMove s env id parentId order reopen = .ok change) :
    Named change.patches := by
  simp only [locationMove, result_bind_ok, result_pure_ok] at h
  obtain ⟨l, -, _, -, _, -, _, -, _, -, _, -, _, -, progress, hprogress, rfl⟩ := h
  have hp : Named progress := by
    split at hprogress
    · exact named_parentProgress hprogress
    · cases hprogress
      exact named_nil
  simp only [named_append, named_cons, named_nil, patch_target, reduceCtorEq, false_implies,
    and_true]
  refine ⟨⟨named_ite fun _ => ?_, ?_⟩, hp⟩
  · exact named_cons.mpr ⟨by simp, named_invalidation _ _ _⟩
  · split <;> simp

omit [Host] in
theorem locationReorder_named {id : String} {order : JsNumber}
    (h : locationReorder s env id order = .ok change) : Named change.patches := by
  simp only [locationReorder, result_bind_ok, result_pure_ok] at h
  obtain ⟨_, -, _, -, _, -, rfl⟩ := h
  simp

theorem locationArchive_named {id : String} {archived : Bool}
    (h : locationArchive s env id archived = .ok change) : Named change.patches := by
  simp only [locationArchive, result_bind_ok, result_pure_ok] at h
  obtain ⟨_, -, _, -, _, -, _, -, _, -, progress, hprogress, rfl⟩ := h
  have hp : Named progress := by
    split at hprogress
    · exact named_captureProgress hprogress
    · cases hprogress
      exact named_nil
  simp [named_invalidation, hp]

omit [Host] in
theorem locationDelete_named {id : String} {descendants items : List String}
    (h : locationDelete s id descendants items = .ok change) : Named change.patches := by
  simp only [locationDelete, result_bind_ok, result_pure_ok] at h
  obtain ⟨_, -, _, -, items, -, _, -, rfl⟩ := h
  simp only [named_append, named_cons, named_nil, patch_target, reduceCtorEq, false_implies,
    and_true]
  exact ⟨⟨named_invalidation _ _ _, named_map (t := .item) (fun _ => rfl) (by decide) _⟩,
    named_map (t := .location) (fun _ => rfl) (by decide) _⟩

omit [Host] in
theorem captureEmpty_named {id : String} {items : List String}
    (h : captureEmpty s env id items = .ok change) : Named change.patches := by
  simp only [captureEmpty, result_bind_ok, result_pure_ok] at h
  obtain ⟨_, -, _, -, _, -, _, -, rfl⟩ := h
  simp only [named_append, named_cons, named_nil, patch_target, reduceCtorEq, false_implies,
    and_true]
  exact ⟨named_invalidation _ _ _, named_map (t := .item) (fun _ => rfl) (by decide) _⟩

omit [Host] in
theorem captureStatus_named {id : String} {status : CaptureStatus}
    (h : captureStatus s env id status = .ok change) : Named change.patches := by
  simp only [captureStatus, result_bind_ok, result_pure_ok] at h
  obtain ⟨_, -, _, -, _, -, _, -, rfl⟩ := h
  simp [named_invalidation]

theorem itemCreate_named {i : ItemRecord} (h : itemCreate s env i = .ok change) :
    Named change.patches := by
  simp only [itemCreate, result_bind_ok, result_pure_ok] at h
  obtain ⟨_, -, _, -, _, -, progress, hprogress, rfl⟩ := h
  simp [named_invalidation, named_captureProgress hprogress]

omit [Host] in
theorem itemBulkCreate_named {items : List ItemRecord} {reopen : Bool}
    (h : itemBulkCreate s env items reopen = .ok change) : Named change.patches := by
  simp only [itemBulkCreate, result_bind_ok, result_pure_ok] at h
  obtain ⟨_, -, _, -, _, -, _, -, progress, hprogress, rfl⟩ := h
  rw [named_append, named_append]
  exact ⟨⟨named_invalidation _ _ _, named_map (t := .item) (fun _ => rfl) (by decide) _⟩,
    named_progressEach hprogress⟩

omit [Host] in
theorem itemUpdate_named {id : String} {changes : ItemChanges}
    (h : itemUpdate s env id changes = .ok change) : Named change.patches := by
  simp only [itemUpdate, result_bind_ok, result_pure_ok] at h
  obtain ⟨_, -, _, -, _, -, _, -, _, -, _, -, _, -, rfl⟩ := h
  rw [named_append]
  exact ⟨named_ite fun _ => named_invalidation _ _ _, named_itemFields _ _ _ _⟩

omit [Host] in
theorem itemBulkUpdate_named {updates : List BulkUpdate} {reopen : Bool}
    (h : itemBulkUpdate s env updates reopen = .ok change) : Named change.patches := by
  simp only [itemBulkUpdate, result_bind_ok, result_pure_ok] at h
  obtain ⟨_, -, ⟨_, _⟩, hloop, _, -, _, -, _, -, progress, hprogress, rfl⟩ := h
  rw [named_append, named_append]
  exact ⟨⟨named_invalidation _ _ _, named_bulkUpdateLoop hloop⟩, named_progressEach hprogress⟩

omit [Host] in
theorem itemReorder_named {id : String} {order : JsNumber}
    (h : itemReorder s env id order = .ok change) : Named change.patches := by
  simp only [itemReorder, result_bind_ok, result_pure_ok] at h
  obtain ⟨_, -, _, -, _, -, _, -, _, -, rfl⟩ := h
  simp

omit [Host] in
theorem itemDelete_named {id : String} (h : itemDelete s id = .ok change) :
    Named change.patches := by
  simp only [itemDelete, result_bind_ok, result_pure_ok] at h
  obtain ⟨_, -, _, -, rfl⟩ := h
  simp [named_invalidation]

theorem itemMove_named {destinationId id : String} {quantity : JsNumber} {reopen : Bool}
    (h : itemMove s env destinationId id quantity reopen = .ok change) : Named change.patches := by
  simp only [itemMove, result_bind_ok, result_pure_ok] at h
  obtain ⟨_, -, _, hmove, _, -, _, hprogress, rfl⟩ := h
  rw [named_append, named_append]
  exact ⟨⟨named_invalidation _ _ _, named_moveItem hmove⟩, named_moveProgress hprogress⟩

theorem itemBulkMove_named {destinationId : String} {ids : List String} {reopen : Bool}
    (h : itemBulkMove s env destinationId ids reopen = .ok change) : Named change.patches := by
  simp only [itemBulkMove, result_bind_ok, result_pure_ok] at h
  obtain ⟨_, -, _, -, _, -, _, -, _, hloop, _, -, _, -, _, hprogress, rfl⟩ := h
  rw [named_append, named_append]
  exact ⟨⟨named_invalidation _ _ _, named_bulkMoveLoop hloop⟩, named_moveProgress hprogress⟩

omit [Host] in
theorem planCreate_named {p : MovePlan} (h : planCreate s p = .ok change) :
    Named change.patches := by
  simp only [planCreate, result_bind_ok, result_pure_ok] at h
  obtain ⟨_, -, _, -, _, -, _, -, _, -, _, -, rfl⟩ := h
  rw [named_append]
  exact ⟨named_map (t := .plan) (fun _ => rfl) (by decide) _, by simp⟩

omit [Host] in
theorem planStatus_named {id : String} {status : PlanStatus}
    (h : planStatus s id status = .ok change) : Named change.patches := by
  simp only [planStatus, result_bind_ok, result_pure_ok] at h
  obtain ⟨_, -, _, -, _, -, _, -, _, -, _, -, rfl⟩ := h
  simp

theorem planStepComplete_named {id stepId : String}
    (h : planStepComplete s env id stepId = .ok change) : Named change.patches := by
  simp only [planStepComplete, result_bind_ok, result_pure_ok] at h
  obtain ⟨_, -, _, -, _, -, _, -, _, -, _, -, _, -, _, hstep, rfl⟩ := h
  simp [named_stepPatches hstep]

/-- **A change patches records and the name of the workspace.** -/
theorem normalPatches_named (h : normalPatches s env = .ok change) : Named change.patches := by
  unfold normalPatches at h
  split at h
  · exact workspaceRename_named h
  · exact locationCreate_named h
  · exact locationUpdate_named h
  · exact locationMove_named h
  · exact locationReorder_named h
  · exact locationArchive_named h
  · exact locationDelete_named h
  · exact captureEmpty_named h
  · exact captureStatus_named h
  · exact itemCreate_named h
  · exact itemBulkCreate_named h
  · exact itemUpdate_named h
  · exact itemBulkUpdate_named h
  · exact itemReorder_named h
  · exact itemDelete_named h
  · exact itemMove_named h
  · exact itemBulkMove_named h
  · exact planCreate_named h
  · exact planStepComplete_named h
  · exact planStatus_named h
  all_goals cases h

end Changes

/-! ## 3. The patches of a replay -/

section Replays

variable {s t : WorkspaceState}

/-- What an activity records besides its status. -/
def historyOf (as : List ActivityRecord) : List (String × String × List FieldPatch) :=
  as.map fun a => (a.id, a.commandId, a.patches)

/-- The history goes on as it was, but for the status of activities. -/
structure SameHistory (s t : WorkspaceState) : Prop where
  activities : historyOf t.activities = historyOf s.activities
  audit : t.audit = s.audit
  receipts : t.commandReceipts = s.commandReceipts

theorem SameHistory.refl (s : WorkspaceState) : SameHistory s s := ⟨rfl, rfl, rfl⟩

/-- A history that stayed twice stayed. -/
theorem SameHistory.trans {u : WorkspaceState} (h : SameHistory s t) (h' : SameHistory t u) :
    SameHistory s u :=
  ⟨h'.activities.trans h.activities, h'.audit.trans h.audit, h'.receipts.trans h.receipts⟩

/-- A patch does not touch the history. -/
theorem applyFieldPatch_unrecorded {p : FieldPatch} (h : applyFieldPatch s p = .ok t) :
    t.activities = s.activities ∧ t.audit = s.audit ∧ t.commandReceipts = s.commandReceipts := by
  unfold applyFieldPatch at h
  cases htarget : p.target <;>
  · simp only [htarget, result_bind_ok, result_pure_ok] at h
    obtain ⟨_, -, rfl⟩ := h
    exact ⟨rfl, rfl, rfl⟩

/-- Patches are not about the history. -/
theorem applyPatches_unrecorded {ps : List FieldPatch} (h : applyPatches s ps = .ok t) :
    t.activities = s.activities ∧ t.audit = s.audit ∧ t.commandReceipts = s.commandReceipts := by
  induction ps generalizing s with
  | nil =>
      cases h
      exact ⟨rfl, rfl, rfl⟩
  | cons p ps ih =>
      simp only [applyPatches, result_bind_ok] at h
      obtain ⟨u, hu, h⟩ := h
      obtain ⟨h1, h2, h3⟩ := ih h
      obtain ⟨g1, g2, g3⟩ := applyFieldPatch_unrecorded hu
      exact ⟨h1.trans g1, h2.trans g2, h3.trans g3⟩

/-- Marking an activity keeps the history. -/
theorem historyOf_markActivity (direction : Direction) (timestamp id : String)
    (as : List ActivityRecord) :
    historyOf (markActivity direction timestamp id as) = historyOf as := by
  unfold markActivity
  split
  · rfl
  · rename_i stored hstored
    exact map_setFirst_of_findKey hstored rfl

/-- Patches that are replayed stay named. -/
theorem named_replayPatches {direction : Direction} {ps : List FieldPatch} (h : Named ps) :
    Named (replayPatches direction ps) := by
  have hm : Named (meaningfulActivityPatches ps) := fun p hp => h p (List.mem_filter.mp hp).1
  cases direction with
  | reapply => exact hm
  | undo =>
      intro p hp
      obtain ⟨q, hq, rfl⟩ := List.mem_map.mp hp
      exact hm q (List.mem_reverse.mp hq)

/-- A replay marks an activity and keeps the rest of the history. -/
theorem replayActivity_history {direction : Direction} {env : CommandEnvelope}
    {a : ActivityRecord} (h : replayActivity direction env s a = .ok t) :
    SameHistory s t ∧ (Named a.patches → SameWorkspace s.workspace t.workspace) := by
  simp only [replayActivity, touchHistoryRecords, result_bind_ok, result_pure_ok] at h
  obtain ⟨_, -, _, -, _, -, u, hu, _, ⟨items, -, rfl⟩, rfl⟩ := h
  obtain ⟨h1, h2, h3⟩ := applyPatches_unrecorded hu
  refine ⟨⟨(historyOf_markActivity _ _ _ _).trans (congrArg historyOf h1), h2, h3⟩, ?_⟩
  intro hn
  have hsame := applyPatches_named (named_replayPatches hn) hu
  exact ⟨hsame.createdAt, hsame.id, hsame.revision⟩

/-- So does a replay of several. -/
theorem replayActivities_history {direction : Direction} {env : CommandEnvelope}
    {as : List ActivityRecord} (h : replayActivities direction env s as = .ok t) :
    SameHistory s t ∧
      ((∀ a ∈ as, Named a.patches) → SameWorkspace s.workspace t.workspace) := by
  induction as generalizing s with
  | nil =>
      cases h
      exact ⟨.refl _, fun _ => .refl _⟩
  | cons a as ih =>
      simp only [replayActivities, result_bind_ok] at h
      obtain ⟨u, hu, h⟩ := h
      obtain ⟨h1, h2⟩ := replayActivity_history hu
      obtain ⟨h3, h4⟩ := ih h
      refine ⟨h1.trans h3, fun hn => (h2 (hn a List.mem_cons_self)).trans ?_⟩
      exact h4 fun b hb => hn b (List.mem_cons_of_mem _ hb)

end Replays

/-! ## 4. What the check asks of recorded paths -/

section Paths

variable [Host] {P : String → String → Prop} {value : JsValue} {issues : List ValidationIssue}

/-- The kind has no issue about the path of a patch. -/
def RejectsPaths (P : String → String → Prop) : Prop := ∀ m, ¬ P "PATCH_PATH" m

/-- A patch that is accepted has a path that its target allows. -/
theorem patch_path_of_allowed (hP : RejectsPaths P) {path : String} {p : FieldPatch}
    (h : patchIssues value path (encode p) = .ok issues) (ha : Allowed P issues) :
    p.path ∈ patchPaths p.target := by
  have hr : (encode p).isRecord = true := rfl
  have hword : (encode p).get "target" = encode p.target := rfl
  have hpath : (encode p).get "path" = .str p.path := rfl
  have htext : textOf (encode p.target) = .ok p.target.word := rfl
  have htarget : targetOf p.target.word = some p.target := Codec.decode_encode p.target
  unfold patchIssues at h
  simp only [hr, hword, htext, htarget, Bool.not_true, Bool.false_eq_true, if_false,
    result_bind_ok, result_pure_ok, Except.ok.injEq, exists_eq_left'] at h
  obtain ⟨before, -, after, -, rfl⟩ := h
  simp only [allowed_append, allowed_issueIf, hpath, text] at ha
  by_contra hout
  refine hP _ (ha.1.1.1.2 ?_)
  rw [Bool.not_eq_true', ← Bool.not_eq_true, List.contains_iff_mem]
  exact hout

/-- So for the patches of an activity. -/
theorem patchLoop_paths (hP : RejectsPaths P) {path : String} {index : Nat}
    {ps : List FieldPatch} (h : patchLoop value path index (ps.map encode) = .ok issues)
    (ha : Allowed P issues) : ∀ p ∈ ps, p.path ∈ patchPaths p.target := by
  induction ps generalizing index issues with
  | nil => exact fun _ h => absurd h List.not_mem_nil
  | cons p ps ih =>
      simp only [List.map_cons, patchLoop, result_bind_ok, result_pure_ok] at h
      obtain ⟨here, hhere, more, hmore, rfl⟩ := h
      rw [allowed_append] at ha
      intro q hq
      rcases List.mem_cons.mp hq with rfl | hq
      · exact patch_path_of_allowed hP hhere ha.1
      · exact ih hmore ha.2 q hq

/-- So for all activities. -/
theorem activityLoop_paths (hP : RejectsPaths P) {index : Nat} {ids : List String}
    {as : List ActivityRecord} (h : activityLoop value index ids (as.map encode) = .ok issues)
    (ha : Allowed P issues) : ∀ a ∈ as, ∀ p ∈ a.patches, p.path ∈ patchPaths p.target := by
  induction as generalizing index ids issues with
  | nil => exact fun _ h => absurd h List.not_mem_nil
  | cons a as ih =>
      have hr : (encode a).isRecord = true := rfl
      have hpatches : (encode a).get "patches" = encode a.patches := rfl
      have harray : (encode a.patches).isArray = true := rfl
      simp only [List.map_cons, activityLoop, hr, Bool.not_true, Bool.false_eq_true, if_false,
        result_bind_ok, result_pure_ok, activityIssues, hpatches, harray, elems_encode] at h
      obtain ⟨here, ⟨history, hhistory, rfl⟩, more, hmore, rfl⟩ := h
      simp only [allowed_append] at ha
      intro b hb
      rcases List.mem_cons.mp hb with rfl | hb
      · exact patchLoop_paths hP hhistory ha.1.2
      · exact ih hmore ha.2 b hb

omit [Host] in
/-- Patches with admissible paths change of a workspace its name only. -/
theorem named_of_paths {ps : List FieldPatch} (h : ∀ p ∈ ps, p.path ∈ patchPaths p.target) :
    Named ps := by
  intro p hp hw
  have := h p hp
  rw [hw] at this
  exact List.mem_singleton.mp this

end Paths

/-! ## 5. One more -/

section Engine

variable [Host] {s w : WorkspaceState} {env : CommandEnvelope}

/-- The issues an accepted replay leaves are of compatible kinds. -/
theorem Replayed.issues {direction : Direction} {as : List ActivityRecord}
    (h : Replayed s w env direction as) : ∃ issues, validateSnapshot (encode w) = .ok issues ∧
      Allowed (fun code _ => code ∈ legacyCodes) issues := by
  obtain ⟨before, after, -, hafter, hvalid⟩ := h.valid
  refine ⟨after, hafter, fun i hi => ?_⟩
  have herror := (allowed_all (holds_encode w) hafter i hi).1
  exact ⟨herror, (firstInvalid_none hvalid i hi herror).1.code_mem⟩

/-- **The activities a replay replays change of the workspace its name only.** -/
theorem Replayed.named {direction : Direction} {as : List ActivityRecord}
    (h : Replayed s w env direction as) : ∀ a ∈ as, Named a.patches := by
  obtain ⟨issues, hissues, hallowed⟩ := h.issues
  obtain ⟨_, activities, _, -, hactivities, -, hparts⟩ :=
    validateSnapshot_ok (holds_encode w) hissues
  simp only [hparts, allowed_append] at hallowed
  have hP : RejectsPaths fun code _ => code ∈ legacyCodes := fun _ h =>
    (by decide : "PATCH_PATH" ∉ legacyCodes) h
  have hpaths := activityLoop_paths hP hactivities hallowed.1.2
  intro a ha
  -- the replay leaves the patches of every activity as they were
  have hmem : (a.id, a.commandId, a.patches) ∈ historyOf w.activities := by
    rw [(replayActivities_history h.replay).1.activities]
    exact List.mem_map_of_mem (h.recorded a ha)
  obtain ⟨b, hb, he⟩ := List.mem_map.mp hmem
  have hpatches : b.patches = a.patches := congrArg (·.2.2) he
  exact named_of_paths (hpatches ▸ hpaths b hb)

/-- The workspace after a command: the same one, a revision further. -/
structure Advanced (env : CommandEnvelope) (w v : Workspace) : Prop where
  createdAt : v.createdAt = w.createdAt
  id : v.id = w.id
  revision : v.revision = w.revision + 1
  updatedAt : v.updatedAt = env.timestamp

/-- The record a command leaves: an activity, or an audit event. -/
inductive Logged (env : CommandEnvelope) (s : WorkspaceState) (r : CommandResult) : Prop where
  | activity (a : ActivityRecord) (hr : r.activity = some a) (hn : r.audit = none)
      (hid : a.commandId = env.id) (ha : r.state.activities = s.activities ++ [a])
      (he : r.state.audit = s.audit) (hc : r.state.commandReceipts = s.commandReceipts)
  | audit (e : AuditEvent) (hr : r.audit = some e) (hn : r.activity = none)
      (hid : e.id = "audit_" ++ env.id)
      (ha : historyOf r.state.activities = historyOf s.activities)
      (ht : ∃ a ∈ r.state.activities, a.id ∈ e.targetActivityIds)
      (he : r.state.audit = s.audit ++ [e]) (hc : r.state.commandReceipts = s.commandReceipts)

/-- **An accepted command moves the revision on by one** and leaves its record. -/
theorem applyCommand_logged {r : CommandResult} (h : applyCommand s env = .ok r) :
    Advanced env s.workspace r.state.workspace ∧ Logged env s r := by
  obtain ⟨-, ⟨-, h⟩ | ⟨-, type, as, hne, hmem, h⟩⟩ := applyCommand_ok h
  · simp only [applyNormalCommand, result_bind_ok, result_pure_ok] at h
    obtain ⟨change, hchange, t, ht, rfl⟩ := h
    have hsame := applyPatches_named (normalPatches_named hchange) ht
    have hhistory := applyPatches_unrecorded ht
    refine ⟨⟨hsame.createdAt, hsame.id, ?_, rfl⟩, .activity _ rfl rfl rfl ?_ hhistory.2.1
      hhistory.2.2⟩
    · show t.workspace.revision + 1 = _
      rw [hsame.revision]
    · show t.activities ++ [_] = _
      rw [hhistory.1]
  · obtain ⟨w, hw, -⟩ := applyHistoryAction_ok h hmem
    simp only [applyHistoryAction, result_bind_ok] at h
    obtain ⟨_, -, w', hw', _, -, h⟩ := h
    obtain rfl : w = w' := Except.ok.inj (hw.replay.symm.trans hw')
    split at h
    · simp at h
    · rw [result_pure_ok] at h
      subst h
      obtain ⟨hhistory, hsame⟩ := replayActivities_history hw.replay
      have hsame := hsame hw.named
      refine ⟨⟨hsame.createdAt, hsame.id, ?_, rfl⟩, .audit _ rfl rfl ?_ hhistory.activities ?_ ?_
        hhistory.receipts⟩
      · show w.workspace.revision + 1 = _
        rw [hsame.revision]
      · show s!"audit_{env.id}" = _
        simp [toString]
      · obtain ⟨a, ha⟩ := List.exists_mem_of_ne_nil as hne
        have hin : (a.id, a.commandId, a.patches) ∈ historyOf w.activities := by
          rw [hhistory.activities]
          exact List.mem_map_of_mem (hmem a ha)
        obtain ⟨b, hb, he⟩ := List.mem_map.mp hin
        have hid : b.id = a.id := congrArg (·.1) he
        exact ⟨b, hb, hid ▸ List.mem_map_of_mem ha⟩
      · show w.audit ++ [_] = _
        rw [hhistory.audit]

end Engine

end Stowplan
