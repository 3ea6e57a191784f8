/-
  File:      Stowplan/Js/Number.lean
  Subject:   JAVASCRIPT NUMBERS, by their exact values.

  A number is not-a-number, an infinity or a rational. Sums and differences are exact; the
  53-bit rounding of a double is left out, its RANGE is not: a result beyond the largest double
  is that double or an infinity, as IEEE rounding has it, and `isFinite` admits no value beyond
  it. Where a result is one that doubles hold (`IsDouble`) nothing is rounded, so there the
  arithmetic is the machine's. The two zeros are one; a `SignedNumber` tells them apart.

  * `JsNumber.isFinite`, `isSafeInteger`: `Number.isFinite`, `Number.isSafeInteger`;
  * `JsNumber.add`, `sub`, `max`, `lt`, `strictEq`: `+`, `-`, `Math.max`, `<`, `===`;
  * `isFinite_add_one`, `pos_sub`, `pos_add`: what the engine's counters and quantities rest on;
  * `isDouble_of_multiple`: multiples of a power of two are doubles, as long as they are small.
-/
import Mathlib.Algebra.Order.Field.Rat
import Mathlib.Algebra.Order.Group.Unbundled.Abs
import Mathlib.Tactic.Linarith
import Mathlib.Tactic.NormNum
import Mathlib.Tactic.Ring

namespace Stowplan

/-- A JavaScript number. -/
inductive JsNumber where
  | nan
  | posInf
  | negInf
  | finite (q : ℚ)
  deriving DecidableEq

namespace JsNumber

/-- `Number.MAX_VALUE`. -/
def maxValue : ℚ := (2 ^ 53 - 1) * 2 ^ 971

/-- Exact results from here on round to an infinity. -/
def overflowAt : ℚ := (2 ^ 54 - 1) * 2 ^ 970

/-- `Number.MAX_SAFE_INTEGER`. -/
def maxSafeInteger : Int := 2 ^ 53 - 1

/-- The number an exact result is kept as. -/
def ofRat (q : ℚ) : JsNumber :=
  if maxValue < q then (if q < overflowAt then .finite maxValue else .posInf)
  else if q < -maxValue then (if -overflowAt < q then .finite (-maxValue) else .negInf)
  else .finite q

/-- A counter as a number. -/
def ofInt (n : Int) : JsNumber := .finite n

instance (n : Nat) : OfNat JsNumber n := ⟨ofInt n⟩

/-- The integer a number is, if it is one. -/
def toInt? : JsNumber → Option Int
  | .finite q => if q.den = 1 then some q.num else none
  | _ => none

/-- `Number.isFinite(x)`. -/
def isFinite : JsNumber → Bool
  | .finite q => decide (-maxValue ≤ q ∧ q ≤ maxValue)
  | _ => false

/-- `Number.isSafeInteger` of a counter. -/
def safeInt (n : Int) : Bool := decide (-maxSafeInteger ≤ n ∧ n ≤ maxSafeInteger)

/-- `Number.isSafeInteger(x)`. -/
def isSafeInteger (x : JsNumber) : Bool :=
  match x.toInt? with
  | some n => safeInt n
  | none => false

/-- `a < b`; a comparison with not-a-number is false. -/
def lt : JsNumber → JsNumber → Bool
  | .nan, _ | _, .nan => false
  | .finite a, .finite b => decide (a < b)
  | .negInf, .negInf | .posInf, _ => false
  | .negInf, _ => true
  | .finite _, .posInf => true
  | .finite _, .negInf => false

/-- `a === b` of two numbers. -/
def strictEq (a b : JsNumber) : Bool := decide (a = b ∧ a ≠ .nan)

/-- `0 < x`: what every "greater than zero" check of the source asks. -/
def pos (x : JsNumber) : Bool := lt 0 x

/-- `a + b`, before it is rounded to 53 bits: the sum itself where that is a double. -/
def add : JsNumber → JsNumber → JsNumber
  | .finite a, .finite b => ofRat (a + b)
  | .nan, _ | _, .nan | .posInf, .negInf | .negInf, .posInf => .nan
  | .posInf, _ | _, .posInf => .posInf
  | .negInf, _ | _, .negInf => .negInf

/-- `-x`. -/
def neg : JsNumber → JsNumber
  | .finite a => .finite (-a)
  | .nan => .nan
  | .posInf => .negInf
  | .negInf => .posInf

/-- `a - b`. -/
def sub (a b : JsNumber) : JsNumber := add a (neg b)

/-- `Math.max(a, b)`. -/
def max (a b : JsNumber) : JsNumber :=
  if a = .nan ∨ b = .nan then .nan else if lt a b then b else a

/-- The exact value of a finite number. -/
def exact : JsNumber → ℚ
  | .finite q => q
  | _ => 0

theorem strictEq_comm (a b : JsNumber) : a.strictEq b = b.strictEq a := by
  unfold strictEq
  by_cases h : a = b
  · rw [h]
  · rw [decide_eq_false fun e => h e.1, decide_eq_false fun e => h e.1.symm]

theorem toInt?_ofInt (n : Int) : (ofInt n).toInt? = some n := by
  simp [ofInt, toInt?]

@[simp] theorem isSafeInteger_ofInt (n : Int) : (ofInt n).isSafeInteger = safeInt n := by
  simp [isSafeInteger, toInt?_ofInt]

@[simp] theorem lt_finite (a b : ℚ) : lt (.finite a) (.finite b) = decide (a < b) := rfl

theorem lt_irrefl (x : JsNumber) : lt x x = false := by
  cases x <;> simp [lt]

@[simp] theorem pos_finite (q : ℚ) : pos (.finite q) = decide (0 < q) := by
  show decide (((0 : Int) : ℚ) < q) = _
  simp

theorem isFinite_iff {x : JsNumber} :
    x.isFinite = true ↔ ∃ q, x = .finite q ∧ -maxValue ≤ q ∧ q ≤ maxValue := by
  cases x <;> simp [isFinite]

@[simp] theorem add_finite (a b : ℚ) : add (.finite a) (.finite b) = ofRat (a + b) := rfl

theorem maxValue_pos : 0 < maxValue := by decide +kernel

theorem maxValue_lt_overflowAt : maxValue + 1 < overflowAt := by decide +kernel

/-- A result in range is kept exactly. -/
theorem ofRat_of_le {q : ℚ} (h1 : -maxValue ≤ q) (h2 : q ≤ maxValue) : ofRat q = .finite q := by
  unfold ofRat
  rw [if_neg (not_lt.mpr h2), if_neg (not_lt.mpr h1)]

/-- Counting an order up stays finite: past the largest double the sum is that double again. -/
theorem isFinite_add_one {x : JsNumber} (h : x.isFinite = true) : (add x 1).isFinite = true := by
  obtain ⟨q, rfl, h1, h2⟩ := isFinite_iff.mp h
  have hm := maxValue_pos
  have ho := maxValue_lt_overflowAt
  show (ofRat (q + ((1 : Int) : ℚ))).isFinite = true
  have e1 : ((1 : Int) : ℚ) = 1 := by norm_num
  rw [e1]
  by_cases hq : maxValue < q + 1
  · have hlt : q + 1 < overflowAt := by linarith
    unfold ofRat
    rw [if_pos hq, if_pos hlt]
    simp only [isFinite, decide_eq_true_eq]
    constructor <;> linarith
  · rw [ofRat_of_le (by linarith) (not_lt.mp hq)]
    simp only [isFinite, decide_eq_true_eq]
    exact ⟨by linarith, not_lt.mp hq⟩

theorem isFinite_max {x y : JsNumber} (hx : x.isFinite = true) (hy : y.isFinite = true) :
    (max x y).isFinite = true := by
  obtain ⟨a, rfl, _, _⟩ := isFinite_iff.mp hx
  obtain ⟨b, rfl, _, _⟩ := isFinite_iff.mp hy
  unfold max
  rw [if_neg (by simp)]
  split
  · exact hy
  · exact hx

/-- The sum of two positive quantities, where it is finite, is positive. -/
theorem pos_add {x y : JsNumber} (hx : x.pos = true) (hy : y.pos = true)
    (hf : (add x y).isFinite = true) : (add x y).pos = true := by
  cases x with
  | finite a =>
    cases y with
    | finite b =>
      simp only [pos_finite, decide_eq_true_eq] at hx hy
      have hm := maxValue_pos
      rw [add_finite] at hf ⊢
      unfold ofRat at hf ⊢
      by_cases h1 : maxValue < a + b
      · rw [if_pos h1] at hf ⊢
        by_cases h2 : a + b < overflowAt
        · rw [if_pos h2]
          simpa using hm
        · rw [if_neg h2] at hf
          simp [isFinite] at hf
      · rw [if_neg h1, if_neg (by linarith)]
        simp only [pos_finite, decide_eq_true_eq]
        linarith
    | nan => simp [add, isFinite] at hf
    | posInf => simp [add, isFinite] at hf
    | negInf => simp [add, isFinite] at hf
  | nan => cases y <;> simp [add, isFinite] at hf
  | posInf => cases y <;> simp [add, isFinite] at hf
  | negInf => cases y <;> simp [add, isFinite] at hf

/-- What is left of a positive finite quantity after taking a smaller one is positive and
    finite. -/
theorem pos_sub {x y : JsNumber} (hx : x.isFinite = true) (hy : y.isFinite = true)
    (hy0 : y.pos = true) (hlt : lt y x = true) :
    (sub x y).isFinite = true ∧ (sub x y).pos = true := by
  obtain ⟨a, rfl, ha1, ha2⟩ := isFinite_iff.mp hx
  obtain ⟨b, rfl, hb1, hb2⟩ := isFinite_iff.mp hy
  simp only [pos_finite, lt_finite, decide_eq_true_eq] at hy0 hlt
  have hm := maxValue_pos
  have e : sub (.finite a) (.finite b) = .finite (a - b) := by
    show ofRat (a + -b) = _
    rw [ofRat_of_le (by linarith) (by linarith), sub_eq_add_neg]
  rw [e]
  refine ⟨?_, ?_⟩
  · simp only [isFinite, decide_eq_true_eq]
    constructor <;> linarith
  · simp only [pos_finite, decide_eq_true_eq]
    linarith

/-- Taking a quantity away from itself leaves nothing. -/
theorem sub_self {x : JsNumber} (hx : x.isFinite = true) : sub x x = 0 := by
  obtain ⟨a, rfl, _, _⟩ := isFinite_iff.mp hx
  have hm := maxValue_pos
  show ofRat (a + -a) = .finite ((0 : Int) : ℚ)
  rw [ofRat_of_le (by linarith) (by linarith)]
  simp

/-- Where something is left, less was taken. -/
theorem lt_of_sub_ne_zero {x y : JsNumber} (hx : x.isFinite = true) (hy : y.isFinite = true)
    (hle : lt x y = false) (h : sub x y ≠ 0) : lt y x = true := by
  obtain ⟨a, rfl, _, _⟩ := isFinite_iff.mp hx
  obtain ⟨b, rfl, _, _⟩ := isFinite_iff.mp hy
  simp only [lt_finite, decide_eq_true_eq, decide_eq_false_iff_not, not_lt] at hle ⊢
  rcases hle.lt_or_eq with hlt | rfl
  · exact hlt
  · exact absurd (sub_self hx) h

/-- Where nothing is left of a finite quantity taken, everything was taken. -/
theorem eq_of_sub_eq_zero {x y : JsNumber} (hy : y.isFinite = true) (h : sub x y = 0) :
    x = y := by
  obtain ⟨b, rfl, -, -⟩ := isFinite_iff.mp hy
  have hm := maxValue_pos
  cases x with
  | finite a =>
      have hz : ofRat (a + -b) = .finite ((0 : Int) : ℚ) := h
      unfold ofRat at hz
      split_ifs at hz with h1 h2 h3 h4
      · injection hz with hz
        simp [hz] at hm
      · injection hz with hz
        have : maxValue = 0 := by simpa using hz
        rw [this] at hm
        exact absurd rfl hm.ne
      · injection hz with hz
        have : a + -b = 0 := by simpa using hz
        rw [show a = b by linarith]
  | _ => cases h

end JsNumber

/-! ## Doubles -/

/-- A double holds the value: a whole number of 53 bits, scaled by a power of two. -/
def IsDouble (q : ℚ) : Prop :=
  ∃ n e : Int, |n| < 2 ^ 53 ∧ -1074 ≤ e ∧ e ≤ 971 ∧ q = n * 2 ^ e

/-- **Small multiples of a power of two are doubles.** -/
theorem isDouble_of_multiple {n e : Int} (hlow : -1074 ≤ e) (hhigh : e ≤ 970)
    (hn : |n| ≤ 2 ^ 53) : IsDouble (n * 2 ^ e) := by
  rcases hn.lt_or_eq with hlt | heq
  · exact ⟨n, e, hlt, hlow, by omega, rfl⟩
  -- the one multiple that needs a 54th bit is even
  · have hscale : ((2 ^ 53 : ℚ)) * 2 ^ e = 2 ^ 52 * 2 ^ (e + 1) := by
      rw [zpow_add₀ two_ne_zero, zpow_one]
      ring
    rcases (abs_eq (by norm_num)).mp heq with rfl | rfl
    · exact ⟨2 ^ 52, e + 1, by norm_num, by omega, by omega, by push_cast; exact hscale⟩
    · refine ⟨-2 ^ 52, e + 1, by norm_num, by omega, by omega, ?_⟩
      push_cast
      linarith only [hscale]

/-- A number as `Object.is` tells it from others: the two zeros are two. -/
inductive SignedNumber where
  | negZero
  | number (x : JsNumber)
  deriving DecidableEq

/-- The number, whatever the sign of a zero. -/
def SignedNumber.value : SignedNumber → JsNumber
  | .negZero => 0
  | .number x => x

end Stowplan
