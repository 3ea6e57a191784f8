/-
  File:      Stowplan/Lib/Outcome.lean
  Subject:   OUTCOMES THAT MAY FAIL, step by step.

  A chain of steps succeeds when every step does, and fails with what the first failing step
  tells.
-/
import Mathlib.Tactic.Basic

namespace Stowplan

theorem except_bind_ok {ε α β : Type} {x : Except ε α} {f : α → Except ε β} {c : β} :
    (x >>= f) = .ok c ↔ ∃ a, x = .ok a ∧ f a = .ok c := by
  cases x with
  | error e => simp [bind, Except.bind]
  | ok a => simp [bind, Except.bind]

theorem except_bind_error {ε α β : Type} {x : Except ε α} {f : α → Except ε β} {e : ε} :
    (x >>= f) = .error e ↔ x = .error e ∨ ∃ a, x = .ok a ∧ f a = .error e := by
  cases x with
  | error d => simp [bind, Except.bind]
  | ok a => simp [bind, Except.bind]

theorem mapError_of_error {ε δ α : Type} (f : ε → δ) (e : ε) :
    (Except.error e : Except ε α).mapError f = .error (f e) := rfl

theorem mapError_of_ok {ε δ α : Type} (f : ε → δ) (a : α) :
    (Except.ok a : Except ε α).mapError f = .ok a := rfl

theorem mapError_ok {ε δ α : Type} {f : ε → δ} {x : Except ε α} {a : α} :
    x.mapError f = .ok a ↔ x = .ok a := by
  cases x with
  | error e => simp [mapError_of_error]
  | ok b => simp [mapError_of_ok]

theorem mapError_error {ε δ α : Type} {f : ε → δ} {x : Except ε α} {d : δ}
    (h : x.mapError f = .error d) : ∃ e, d = f e := by
  cases x with
  | error e => exact ⟨e, (Except.error.inj h).symm⟩
  | ok a => cases h

theorem toOption_eq_some {ε α : Type} {x : Except ε α} {a : α} :
    x.toOption = some a ↔ x = .ok a := by
  cases x <;> simp [Except.toOption]

theorem exists_of_isOk {ε α : Type} {x : Except ε α} (h : x.isOk = true) : ∃ a, x = .ok a := by
  cases x with
  | error e => cases h
  | ok a => exact ⟨a, rfl⟩

end Stowplan
