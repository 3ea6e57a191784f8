/-
  File:      Stowplan/Lib/Ascent.lean
  Subject:   THE WAY UP IN A FOREST, and what moving one subtree does to it.

  A forest given by what is right above each key. Moving a subtree changes the key above one key,
  its root, to one that is not inside the subtree. Ways up that do not pass the root stay; a way
  up from inside the subtree goes to the root and on from the new place.

  * `climb_congr`: a climb depends on the steps it takes;
  * `Above.update_inside`, `Above.update_above`: the ways up from inside the moved subtree;
  * `Above.update_outside`: the ways up from outside;
  * `Above.marked_of_both`, `Above.marked_of_neither`: what is below one of some marked keys.
-/
import Stowplan.Lib.Forest
import Mathlib.Logic.Function.Basic

namespace Stowplan.Forest

open Relation

/-! ## 1. Climbing -/

section Climb

variable {α κ : Type} [DecidableEq κ] {key : α → κ} {next next' : α → Option α}

/-- A climb depends on the steps it takes. -/
theorem climb_congr {n : Nat} {seen : List κ} {start : Option α}
    (h : ∀ x ∈ climb key next n seen start, next' x = next x) :
    climb key next' n seen start = climb key next n seen start := by
  induction n generalizing seen start with
  | zero => rfl
  | succ n ih =>
      cases start with
      | none => rfl
      | some x =>
          unfold climb at h ⊢
          by_cases hseen : key x ∈ seen
          · rw [if_pos hseen, if_pos hseen]
          · rw [if_neg hseen] at h ⊢
            rw [if_neg hseen, h x List.mem_cons_self]
            rw [ih fun y hy => h y (List.mem_cons_of_mem _ hy)]

/-- Climbing from one record to the next, read off the keys. -/
theorem map_climb_keys {up : κ → Option κ} {n : Nat} {seen : List κ} {start : Option α}
    {P : α → Prop} (hstart : ∀ x ∈ start, P x)
    (hnext : ∀ x, P x → up (key x) = (next x).map key ∧ ∀ y ∈ next x, P y) :
    (climb key next n seen start).map key = climb (fun k => k) up n seen (start.map key) := by
  induction n generalizing seen start with
  | zero => rfl
  | succ n ih =>
      cases start with
      | none => rfl
      | some x =>
          obtain ⟨hup, hrest⟩ := hnext x (hstart x rfl)
          rw [Option.map_some]
          unfold climb
          by_cases hseen : key x ∈ seen
          · rw [if_pos hseen, if_pos hseen]
            rfl
          · rw [if_neg hseen, if_neg hseen, List.map_cons, ih hrest, hup]

end Climb

/-! ## 2. Moving a subtree -/

section Move

variable {κ : Type} [DecidableEq κ] {up : κ → Option κ} {k d x y : κ}

/-- `b` is right above `a`. -/
def Above (up : κ → Option κ) (a b : κ) : Prop := up a = some b

omit [DecidableEq κ] in
theorem Above.unique {a b c : κ} (h : Above up a b) (h' : Above up a c) : b = c :=
  Option.some.inj (h.symm.trans h')

omit [DecidableEq κ] in
/-- The way up goes on from where it has come to. -/
theorem Above.total (hb : ReflTransGen (Above up) x y) {z : κ}
    (hc : ReflTransGen (Above up) x z) :
    ReflTransGen (Above up) y z ∨ ReflTransGen (Above up) z y := by
  induction hb using ReflTransGen.head_induction_on with
  | refl => exact .inl hc
  | head hab hbb ih =>
      rcases ReflTransGen.cases_head hc with rfl | ⟨c, hac, hcz⟩
      · exact .inr (hbb.head hab)
      · rw [hac.unique hab] at hcz
        exact ih hcz

theorem Above.update_ne {a b : κ} {v : Option κ} (hne : a ≠ k) :
    Above (Function.update up k v) a b ↔ Above up a b := by
  unfold Above
  rw [Function.update_of_ne hne]

/-- From outside the subtree the ways up are the same. -/
theorem Above.update_outside {v : Option κ} (hout : ¬ ReflTransGen (Above up) x k) :
    ReflTransGen (Above (Function.update up k v)) x y ↔ ReflTransGen (Above up) x y := by
  constructor
  · intro h
    induction h with
    | refl => exact .refl
    | tail _ hstep ih =>
        refine ih.tail ((Above.update_ne ?_).mp hstep)
        rintro rfl
        exact hout ih
  · intro h
    induction h with
    | refl => exact .refl
    | tail hway hstep ih =>
        refine ih.tail ((Above.update_ne ?_).mpr hstep)
        rintro rfl
        exact hout hway

/-- From inside the subtree the way up to its root is the same. -/
theorem Above.update_inside {v : Option κ} (hin : ReflTransGen (Above up) x k) :
    ReflTransGen (Above (Function.update up k v)) x k := by
  induction hin using ReflTransGen.head_induction_on with
  | refl => exact .refl
  | @head a b hab _ ih =>
      by_cases hak : a = k
      · exact hak ▸ .refl
      · exact ih.head ((Above.update_ne hak).mpr hab)

/-- **Above something inside the subtree** is what was inside it, or is above the new place. -/
theorem Above.update_above (hout : ¬ ReflTransGen (Above up) d k)
    (hin : ReflTransGen (Above up) x k)
    (h : ReflTransGen (Above (Function.update up k (some d))) x y) :
    ReflTransGen (Above up) y k ∨ ReflTransGen (Above up) d y := by
  induction h with
  | refl => exact .inl hin
  | @tail b c _ hstep ih =>
      rcases ih with hbelow | habove
      · by_cases hbk : b = k
        · subst hbk
          have hc : Above (Function.update up b (some d)) b d := Function.update_self b _ up
          rw [hstep.unique hc]
          exact .inr .refl
        · have hold := (Above.update_ne hbk).mp hstep
          rcases ReflTransGen.cases_head hbelow with heq | ⟨z, hz, hrest⟩
          · exact absurd heq hbk
          · rw [hold.unique hz]
            exact .inl hrest
      · have hbk : b ≠ k := by
          rintro rfl
          exact hout habove
        exact .inr (habove.tail ((Above.update_ne hbk).mp hstep))

/-- From inside the subtree the way up goes on above the new place. -/
theorem Above.update_new (hout : ¬ ReflTransGen (Above up) d k)
    (hin : ReflTransGen (Above up) x k) (h : ReflTransGen (Above up) d y) :
    ReflTransGen (Above (Function.update up k (some d))) x y := by
  have hc : Above (Function.update up k (some d)) k d := Function.update_self k _ up
  exact ((Above.update_inside hin).tail hc).trans ((Above.update_outside hout).mpr h)

/-- **The subtree and its new place both below a marked key**: what is below one is the same. -/
theorem Above.marked_of_both {R : κ → Prop} (hout : ¬ ReflTransGen (Above up) d k)
    (hk : ∃ r, R r ∧ ReflTransGen (Above up) k r) (hd : ∃ r, R r ∧ ReflTransGen (Above up) d r) :
    (∃ r, R r ∧ ReflTransGen (Above (Function.update up k (some d))) x r) ↔
      ∃ r, R r ∧ ReflTransGen (Above up) x r := by
  by_cases hin : ReflTransGen (Above up) x k
  · obtain ⟨r, hr, hkr⟩ := hk
    obtain ⟨q, hq, hdq⟩ := hd
    exact ⟨fun _ => ⟨r, hr, hin.trans hkr⟩, fun _ => ⟨q, hq, Above.update_new hout hin hdq⟩⟩
  · simp only [Above.update_outside hin]

/-- **No marked key in the subtree, above it or above its new place**: what is below one is the
    same. -/
theorem Above.marked_of_neither {R : κ → Prop} (hout : ¬ ReflTransGen (Above up) d k)
    (hin : ∀ r, R r → ¬ ReflTransGen (Above up) r k)
    (hk : ∀ r, R r → ¬ ReflTransGen (Above up) k r)
    (hd : ∀ r, R r → ¬ ReflTransGen (Above up) d r) :
    (∃ r, R r ∧ ReflTransGen (Above (Function.update up k (some d))) x r) ↔
      ∃ r, R r ∧ ReflTransGen (Above up) x r := by
  by_cases hx : ReflTransGen (Above up) x k
  · constructor
    · intro h
      obtain ⟨r, hr, hxr⟩ := h
      rcases Above.update_above hout hx hxr with hrk | hdr
      · exact absurd hrk (hin r hr)
      · exact absurd hdr (hd r hr)
    · intro h
      obtain ⟨r, hr, hxr⟩ := h
      rcases Above.total hx hxr with hkr | hrk
      · exact absurd hkr (hk r hr)
      · exact absurd hrk (hin r hr)
  · simp only [Above.update_outside hx]

end Move

end Stowplan.Forest
