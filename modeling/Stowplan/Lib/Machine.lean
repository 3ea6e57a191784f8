/-
  File:      Stowplan/Lib/Machine.lean
  Subject:   MACHINES THAT TAKE STEPS, and what holds over all their runs.

  A machine has initial states and a step relation labelled by actions. A run keeps the list of
  its actions, the last one at the end.

  * `Run.invariant`, `Reachable.invariant`: what every step keeps, every run keeps;
  * `Machine.restrict`: the machine that takes only the steps that meet a condition;
  * `Run.of_follow`: a schedule that can be followed is a run.
-/
import Mathlib.Data.List.Basic

namespace Stowplan

universe u v

/-- A transition system: where it starts, and what an action may do. -/
structure Machine (σ : Type u) (α : Type v) where
  init : σ → Prop
  step : σ → α → σ → Prop

namespace Machine

variable {σ : Type u} {α : Type v} {M : Machine σ α}

/-- The machine goes from one state to another by the actions. -/
inductive Run (M : Machine σ α) : σ → List α → σ → Prop where
  | nil (s : σ) : Run M s [] s
  | snoc {s t u : σ} {as : List α} {a : α} (h : Run M s as t) (hs : M.step t a u) :
      Run M s (as ++ [a]) u

/-- Some run from a start ends in the state. -/
def Reachable (M : Machine σ α) (s : σ) : Prop := ∃ s₀ as, M.init s₀ ∧ M.Run s₀ as s

theorem Run.single {s t : σ} {a : α} (h : M.step s a t) : M.Run s [a] t := .snoc (.nil s) h

theorem Run.append {s t u : σ} {as bs : List α} (h : M.Run s as t) (h' : M.Run t bs u) :
    M.Run s (as ++ bs) u := by
  induction h' with
  | nil => simpa using h
  | snoc _ hs ih =>
      rw [← List.append_assoc]
      exact .snoc ih hs

theorem Run.cons {s t u : σ} {a : α} {as : List α} (h : M.step s a t) (h' : M.Run t as u) :
    M.Run s (a :: as) u :=
  (Run.single h).append h'

/-- **What every step keeps, every run keeps.** -/
theorem Run.invariant {P : σ → Prop} (hstep : ∀ s a t, P s → M.step s a t → P t) {s t : σ}
    {as : List α} (h : M.Run s as t) (hs : P s) : P t := by
  induction h with
  | nil => exact hs
  | snoc _ hst ih => exact hstep _ _ _ ih hst

theorem Reachable.step {s t : σ} {a : α} (h : M.Reachable s) (hs : M.step s a t) :
    M.Reachable t := by
  obtain ⟨s₀, as, hinit, hrun⟩ := h
  exact ⟨s₀, as ++ [a], hinit, .snoc hrun hs⟩

/-- **What holds at first and every step keeps holds in every reachable state.** -/
theorem Reachable.invariant {P : σ → Prop} (hinit : ∀ s, M.init s → P s)
    (hstep : ∀ s a t, P s → M.step s a t → P t) {s : σ} (h : M.Reachable s) : P s := by
  obtain ⟨s₀, as, h₀, hrun⟩ := h
  exact hrun.invariant hstep (hinit s₀ h₀)

/-- The machine that takes only the steps that meet the condition. -/
def restrict (M : Machine σ α) (ok : σ → α → Prop) : Machine σ α where
  init := M.init
  step s a t := ok s a ∧ M.step s a t

theorem Run.of_restrict {ok : σ → α → Prop} {s t : σ} {as : List α}
    (h : (M.restrict ok).Run s as t) : M.Run s as t := by
  induction h with
  | nil => exact .nil _
  | snoc _ hs ih => exact .snoc ih hs.2

/-- A condition that always holds restricts nothing. -/
theorem Run.restrict {ok : σ → α → Prop} (hok : ∀ s a, ok s a) {s t : σ} {as : List α}
    (h : M.Run s as t) : (M.restrict ok).Run s as t := by
  induction h with
  | nil => exact .nil _
  | snoc _ hs ih => exact .snoc ih ⟨hok _ _, hs⟩

theorem Reachable.of_restrict {ok : σ → α → Prop} {s : σ} (h : (M.restrict ok).Reachable s) :
    M.Reachable s := by
  obtain ⟨s₀, as, h₀, hrun⟩ := h
  exact ⟨s₀, as, h₀, hrun.of_restrict⟩

/-- A schedule, followed turn by turn. -/
def follow {τ : Type*} (turn : σ → τ → Option σ) (s : σ) : List τ → Option σ
  | [] => some s
  | t :: ts => (turn s t).bind fun u => follow turn u ts

/-- **A schedule that can be followed is a run**, when each of its turns is a step. -/
theorem Run.of_follow {τ : Type*} {turn : σ → τ → Option σ}
    (hturn : ∀ s t u, turn s t = some u → ∃ a, M.step s a u) {s u : σ} {ts : List τ}
    (h : follow turn s ts = some u) : ∃ as, M.Run s as u := by
  induction ts generalizing s with
  | nil =>
      cases h
      exact ⟨[], .nil _⟩
  | cons t ts ih =>
      obtain ⟨v, hv, h⟩ := Option.bind_eq_some_iff.mp h
      obtain ⟨a, ha⟩ := hturn s t v hv
      obtain ⟨as, has⟩ := ih h
      exact ⟨a :: as, .cons ha has⟩

end Machine

end Stowplan
