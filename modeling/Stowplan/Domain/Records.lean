/-
  File:      Stowplan/Domain/Records.lean
  Subject:   WHAT PATCHES DO TO THE ITEMS AND LOCATIONS, whatever the plans are.

  A patch reaches its record by the identifier, and what it leaves of the items and locations
  depends on the items and locations alone. So an accepted change can be followed on them where
  plans share an identifier, and where a patch shows a value before that is not there any more.

  * `SameStock.of_edited`: a patch leaves the records that it describes;
  * `Yields`: a list of patches does, and describes the change where the values before are right.
-/
import Stowplan.Domain.Edits

namespace Stowplan

open Keyed

/-- The items and the locations are the same. -/
structure SameStock (s t : WorkspaceState) : Prop where
  items : t.items = s.items
  locations : t.locations = s.locations

namespace SameStock

variable {s t u v : WorkspaceState}

theorem refl (s : WorkspaceState) : SameStock s s := ⟨rfl, rfl⟩

theorem symm (h : SameStock s t) : SameStock t s := ⟨h.items.symm, h.locations.symm⟩

theorem trans (h : SameStock s t) (h' : SameStock t u) : SameStock s u :=
  ⟨h'.items.trans h.items, h'.locations.trans h.locations⟩

/-! ## 1. One patch -/

/-- A patch of a plan leaves the items and locations. -/
theorem of_plan {p : FieldPatch} (hp : p.target = .plan) (h : applyFieldPatch s p = .ok t) :
    SameStock s t := by
  unfold applyFieldPatch at h
  rw [hp] at h
  simp only [result_bind_ok, result_pure_ok] at h
  obtain ⟨plans, -, rfl⟩ := h
  exact ⟨rfl, rfl⟩

/-- On the same records a patch leaves the same records. -/
theorem of_patch {p : FieldPatch} (h : SameStock s u)
    (ht : applyFieldPatch s p = .ok t) (hv : applyFieldPatch u p = .ok v) : SameStock t v := by
  unfold applyFieldPatch at ht hv
  cases htarget : p.target <;> rw [htarget] at ht hv <;>
    simp only [result_bind_ok, result_pure_ok] at ht hv
  case item =>
    obtain ⟨is, his, rfl⟩ := ht
    obtain ⟨js, hjs, rfl⟩ := hv
    rw [h.items, his] at hjs
    exact ⟨(Except.ok.inj hjs).symm, h.locations⟩
  case location =>
    obtain ⟨ls, hls, rfl⟩ := ht
    obtain ⟨ms, hms, rfl⟩ := hv
    rw [h.locations, hls] at hms
    exact ⟨h.items, (Except.ok.inj hms).symm⟩
  all_goals
    obtain ⟨_, -, rfl⟩ := ht
    obtain ⟨_, -, rfl⟩ := hv
    exact ⟨h.items, h.locations⟩

/-- An edit leaves the records that its patch leaves. -/
theorem of_edited {p : FieldPatch} (hr : UniqueRecords s) (he : Edited s p t)
    (h : SameStock s u) (hv : applyFieldPatch u p = .ok v) : SameStock t v := by
  by_cases hp : p.target = .plan
  · have ht : SameStock s t := by
      cases he <;> first | exact ⟨rfl, rfl⟩ | cases hp
    exact ht.symm.trans (h.trans (of_plan hp hv))
  · exact h.of_patch (apply_of_edited hr (fun hplan => absurd hplan hp) he) hv

/-! ## 2. Several patches -/

/-- Patches of plans leave the items and locations. -/
theorem of_plans {ps : List FieldPatch} (hps : ∀ p ∈ ps, p.target = .plan)
    (h : applyPatches s ps = .ok t) : SameStock s t := by
  induction ps generalizing s with
  | nil =>
      rw [applyPatches] at h
      cases h
      exact refl _
  | cons p ps ih =>
      rw [applyPatches, result_bind_ok] at h
      obtain ⟨u, hu, h⟩ := h
      exact (of_plan (hps p List.mem_cons_self) hu).trans
        (ih (fun q hq => hps q (List.mem_cons_of_mem _ hq)) h)

end SameStock

/-- Items and locations that are the same have distinct identifiers alike. -/
theorem UniqueRecords.of_same {s t : WorkspaceState} (hr : UniqueRecords s)
    (h : SameStock s t) : UniqueRecords t :=
  ⟨h.items ▸ hr.items, h.locations ▸ hr.locations⟩

theorem UniqueRecords.of_edited {s t : WorkspaceState} {p : FieldPatch} (hr : UniqueRecords s)
    (h : Edited s p t) : UniqueRecords t := by
  obtain ⟨hitems, hlocations⟩ := hr
  cases h with
  | item e h =>
      refine ⟨?_, hlocations⟩
      show ((modifyKey _ _ _ s.items).map _).Nodup
      rw [map_modifyKey e.put_id]
      exact hitems
  | location e h =>
      refine ⟨hitems, ?_⟩
      show ((modifyKey _ _ _ s.locations).map _).Nodup
      rw [map_modifyKey e.put_id]
      exact hlocations
  | plan e h => exact ⟨hitems, hlocations⟩
  | rename name => exact ⟨hitems, hlocations⟩
  | addItem i h => exact ⟨nodup_append_new hitems h, hlocations⟩
  | addLocation l h => exact ⟨hitems, nodup_append_new hlocations h⟩
  | addPlan p h => exact ⟨hitems, hlocations⟩
  | dropItem i h => exact ⟨nodup_filter hitems _, hlocations⟩
  | dropLocation l h => exact ⟨hitems, nodup_filter hlocations _⟩

/-- Patches that describe a change keep the identifiers of items and locations distinct. -/
theorem UniqueRecords.of_describes {s t : WorkspaceState} {ps : List FieldPatch}
    (hr : UniqueRecords s) (h : Describes s ps t) : UniqueRecords t := by
  induction h with
  | nil => exact hr
  | cons he _ ih => exact ih (hr.of_edited he)

/-- Patches of items and locations make the edits they describe, whatever the plans are. -/
theorem applyPatches_of_records {s t : WorkspaceState} {ps : List FieldPatch}
    (hr : UniqueRecords s) (hps : ∀ p ∈ ps, p.target ≠ .plan) (h : Describes s ps t) :
    applyPatches s ps = .ok t := by
  induction h with
  | nil => rfl
  | cons he _ ih =>
      rw [applyPatches, apply_of_edited hr (fun hp => absurd hp (hps _ List.mem_cons_self)) he]
      exact ih (hr.of_edited he) fun q hq => hps q (List.mem_cons_of_mem _ hq)

/-- Patches applied one list after another. -/
theorem applyPatches_append {s t : WorkspaceState} {ps qs : List FieldPatch} :
    applyPatches s (ps ++ qs) = .ok t ↔
      ∃ u, applyPatches s ps = .ok u ∧ applyPatches u qs = .ok t := by
  induction ps generalizing s with
  | nil => simp [applyPatches]
  | cons p ps ih =>
      simp only [List.cons_append, applyPatches, result_bind_ok, ih]
      constructor
      · rintro ⟨u, hu, w, hw, h⟩
        exact ⟨w, ⟨u, hu, hw⟩, h⟩
      · rintro ⟨w, ⟨u, hu, hw⟩, h⟩
        exact ⟨u, hu, w, hw, h⟩

/-! ## 3. The value before -/

/-- The patch without its value before. -/
def FieldPatch.blind (p : FieldPatch) : FieldPatch := { p with before := .undefined }

/-- Applying patches does not look at the values before. -/
theorem applyPatches_blind (s : WorkspaceState) (ps : List FieldPatch) :
    applyPatches s (ps.map FieldPatch.blind) = applyPatches s ps := by
  induction ps generalizing s with
  | nil => rfl
  | cons p ps ih =>
      have hp : applyFieldPatch s p.blind = applyFieldPatch s p := rfl
      simp only [List.map_cons, applyPatches, hp, ih]

/-- Patches that differ in their values before leave the same. -/
theorem applyPatches_congr {s : WorkspaceState} {ps qs : List FieldPatch}
    (h : ps.map FieldPatch.blind = qs.map FieldPatch.blind) :
    applyPatches s ps = applyPatches s qs := by
  rw [← applyPatches_blind s ps, h, applyPatches_blind]

/-! ## 4. What patches yield -/

/-- Applied to the records of the first state the patches leave those of the second; under the
    condition they describe the change from the one state to the other. -/
structure Yields (c : Prop) (s : WorkspaceState) (ps : List FieldPatch) (t : WorkspaceState) :
    Prop where
  unique : UniqueRecords t
  applied : ∀ u v, SameStock s u → applyPatches u ps = .ok v → SameStock t v
  described : c → Describes s ps t

namespace Yields

variable {c : Prop} {s t u : WorkspaceState} {ps qs : List FieldPatch}

/-- Patches that describe a change yield it. -/
theorem of_describes (hr : UniqueRecords s) (h : Describes s ps t) : Yields c s ps t := by
  refine ⟨hr.of_describes h, ?_, fun _ => h⟩
  induction h with
  | nil s =>
      intro u v hu hv
      rw [applyPatches] at hv
      cases hv
      exact hu
  | cons he _ ih =>
      intro u v hu hv
      rw [applyPatches, result_bind_ok] at hv
      obtain ⟨w, hw, hv⟩ := hv
      exact ih (hr.of_edited he) w v (.of_edited hr he hu hw) hv

/-- Patches of plans yield the same records, under whatever plans they describe. -/
theorem of_plans (hr : UniqueRecords s) (hps : ∀ p ∈ ps, p.target = .plan)
    (ht : SameStock s t) (h : c → Describes s ps t) : Yields c s ps t :=
  ⟨hr.of_same ht, fun _ _ hu hv => ht.symm.trans (hu.trans (.of_plans hps hv)), h⟩

/-- What patches yield follows one after another. -/
theorem append (h : Yields c s ps t) (h' : Yields c t qs u) : Yields c s (ps ++ qs) u := by
  refine ⟨h'.unique, fun x y hx hy => ?_, fun hc => (h.described hc).append (h'.described hc)⟩
  obtain ⟨w, hw, hy⟩ := applyPatches_append.mp hy
  exact h'.applied w y (h.applied x w hx hw) hy

/-- The progress patches of locations that are there yield them in progress, and describe that
    where the locations still show what the patches saw. -/
theorem progress {ls : List Location} {timestamp : String} (hr : UniqueRecords s)
    (hn : (ls.map Location.id).Nodup) (hfound : ∀ l ∈ ls, ∃ m, findLocation s l.id = some m)
    (hsame : c → ∀ l ∈ ls, ∃ m, findLocation s l.id = some m ∧
      m.captureStatus = l.captureStatus ∧ m.updatedAt = l.updatedAt) :
    Yields c s (ls.flatMap fun l => progressPatches l timestamp)
      (s.setProgress (ls.map Location.id) timestamp) := by
  -- the patches of the locations as they are now
  let now : Location → Location := fun l => (findLocation s l.id).getD l
  have hid : ∀ l ∈ ls, (now l).id = l.id ∧ findLocation s l.id = some (now l) := by
    intro l hl
    obtain ⟨m, hm⟩ := hfound l hl
    have he : now l = m := by simp only [now, hm, Option.getD_some]
    exact ⟨he ▸ (findKey_some hm).2, he ▸ hm⟩
  have hids : (ls.map now).map Location.id = ls.map Location.id := by
    rw [List.map_map]
    exact List.map_congr_left fun l hl => (hid l hl).1
  have hnow : Describes s ((ls.map now).flatMap fun l => progressPatches l timestamp)
      (s.setProgress (ls.map Location.id) timestamp) := by
    rw [← hids]
    refine describes_progress (hids ▸ hn) fun m hm => ?_
    obtain ⟨l, hl, rfl⟩ := List.mem_map.mp hm
    exact ⟨now l, (hid l hl).1 ▸ (hid l hl).2, rfl, rfl⟩
  have hblind : (ls.flatMap fun l => progressPatches l timestamp).map FieldPatch.blind =
      ((ls.map now).flatMap fun l => progressPatches l timestamp).map FieldPatch.blind := by
    rw [List.map_flatMap, List.map_flatMap, List.flatMap_map]
    refine List.flatMap_congr fun l hl => ?_
    simp only [progressPatches, List.map_cons, List.map_nil, FieldPatch.blind, patch,
      (hid l hl).1]
  have hyields : Yields c s _ _ := of_describes hr hnow
  refine ⟨hyields.unique, fun x y hx hy => ?_, fun hc => describes_progress hn (hsame hc)⟩
  rw [applyPatches_congr hblind] at hy
  exact hyields.applied x y hx hy

end Yields

end Stowplan
