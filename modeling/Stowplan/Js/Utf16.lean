/-
  File:      Stowplan/Js/Utf16.lean
  Subject:   THE UNITS OF A STRING.

  A string of the language is a list of units of UTF-16. A character outside the basic plane takes
  two of them, its surrogates; a surrogate can also stand alone, and then the string is no text.
  Strings are compared unit by unit, which is not the order of the characters: the surrogates come
  before the last characters of the basic plane.

  * `utf16`: the units of a text, `codePoints`: a list of units read as characters;
  * `codePoints_eq_iff`: the one undoes the other;
  * `isWellFormed_iff`: the lists of units that are texts;
  * `Utf16Le`: the order of texts by their units.
-/
import Mathlib.Data.List.Basic
import Mathlib.Data.String.Basic
import Mathlib.Order.Defs.Unbundled

namespace Stowplan

/-! ## 1. Units -/

/-- A string of the language. -/
abbrev JsString : Type := List UInt16

/-- The one or two units of a character. -/
def charUnits (c : Char) : JsString :=
  if c.toNat < 0x10000 then [UInt16.ofNat c.toNat]
  else [UInt16.ofNat (0xD800 + (c.toNat - 0x10000) / 0x400),
    UInt16.ofNat (0xDC00 + (c.toNat - 0x10000) % 0x400)]

/-- The units of some characters. -/
def unitsOf (text : List Char) : JsString := text.flatMap charUnits

/-- The units of a text. -/
def utf16 (s : String) : JsString := unitsOf s.toList

/-- The first half of a pair. -/
def isHighSurrogate (u : UInt16) : Bool := decide (0xD800 ≤ u.toNat) && decide (u.toNat < 0xDC00)

/-- The second half of a pair. -/
def isLowSurrogate (u : UInt16) : Bool := decide (0xDC00 ≤ u.toNat) && decide (u.toNat < 0xE000)

/-- The character that two surrogates make. -/
def pairChar (high low : UInt16) : Char :=
  Char.ofNat (0x10000 + (high.toNat - 0xD800) * 0x400 + (low.toNat - 0xDC00))

/-- The characters of a string, with `none` for each surrogate that stands alone. -/
def codePoints : JsString → List (Option Char)
  | [] => []
  | [u] => [if isHighSurrogate u || isLowSurrogate u then none else some (Char.ofNat u.toNat)]
  | u :: v :: rest =>
    if isHighSurrogate u && isLowSurrogate v then some (pairChar u v) :: codePoints rest
    else (if isHighSurrogate u || isLowSurrogate u then none else some (Char.ofNat u.toNat)) ::
      codePoints (v :: rest)

/-- `string.isWellFormed()`: no surrogate stands alone. -/
def isWellFormed (s : JsString) : Bool := (codePoints s).all Option.isSome

/-- The character that stands for a surrogate alone. -/
def replacementCharacter : Char := Char.ofNat 0xFFFD

/-- `string.toWellFormed()`: each surrogate that stands alone is replaced. -/
def toWellFormed (s : JsString) : List Char :=
  (codePoints s).map fun c => c.getD replacementCharacter

/-! ## 2. Reading units -/

/-- A character is below the surrogates, above them, or beyond the basic plane. -/
theorem toNat_range (c : Char) : c.toNat < 0xD800 ∨ 0xE000 ≤ c.toNat ∧ c.toNat < 0x110000 := by
  rcases c.valid with h | ⟨h, h'⟩
  · exact .inl h
  · exact .inr ⟨by unfold Char.toNat; omega, h'⟩

theorem ofNat_toNat16 {n : Nat} (h : n < 0x10000) : (UInt16.ofNat n).toNat = n := by
  rw [UInt16.toNat_ofNat']
  exact Nat.mod_eq_of_lt h

theorem not_surrogate {u : UInt16} {c : Char} (h : u.toNat = c.toNat) :
    (isHighSurrogate u || isLowSurrogate u) = false := by
  unfold isHighSurrogate isLowSurrogate
  rcases toNat_range c with hc | hc <;> simp <;> omega

/-- A unit that is no surrogate is a character. -/
theorem toNat_of_not_surrogate {u : UInt16}
    (h : (isHighSurrogate u || isLowSurrogate u) = false) :
    (Char.ofNat u.toNat).toNat = u.toNat := by
  have hu := u.toNat_lt
  have hvalid : u.toNat.isValidChar := by
    unfold isHighSurrogate isLowSurrogate at h
    simp only [Bool.or_eq_false_iff, Bool.and_eq_false_iff, decide_eq_false_iff_not] at h
    unfold Nat.isValidChar
    omega
  rw [Char.ofNat, dif_pos hvalid]
  rfl

theorem charUnits_single {c : Char} {u : UInt16} (h : c.toNat = u.toNat) : charUnits c = [u] := by
  have hu := u.toNat_lt
  unfold charUnits
  rw [if_pos (by omega), h, UInt16.ofNat_toNat]

/-- The two surrogates of a character beyond the basic plane. -/
theorem charUnits_pair {c : Char} (h : 0x10000 ≤ c.toNat) : ∃ high low, charUnits c = [high, low] ∧
    (isHighSurrogate high && isLowSurrogate low) = true ∧ pairChar high low = c := by
  have hc : c.toNat < 0x110000 := by
    rcases toNat_range c with hc | hc
    · omega
    · exact hc.2
  have hhigh : (UInt16.ofNat (0xD800 + (c.toNat - 0x10000) / 0x400)).toNat =
      0xD800 + (c.toNat - 0x10000) / 0x400 := ofNat_toNat16 (by omega)
  have hlow : (UInt16.ofNat (0xDC00 + (c.toNat - 0x10000) % 0x400)).toNat =
      0xDC00 + (c.toNat - 0x10000) % 0x400 := ofNat_toNat16 (by omega)
  refine ⟨_, _, if_neg (by omega), ?_, ?_⟩
  · unfold isHighSurrogate isLowSurrogate
    rw [hhigh, hlow]
    simp only [Bool.and_eq_true, decide_eq_true_eq]
    omega
  · unfold pairChar
    have hsum : 0x10000 + (0xD800 + (c.toNat - 0x10000) / 0x400 - 0xD800) * 0x400 +
        (0xDC00 + (c.toNat - 0x10000) % 0x400 - 0xDC00) = c.toNat := by omega
    rw [hhigh, hlow, hsum, Char.ofNat_toNat]

/-- Two surrogates are the units of the character they make. -/
theorem charUnits_pairChar {u v : UInt16} (h : (isHighSurrogate u && isLowSurrogate v) = true) :
    charUnits (pairChar u v) = [u, v] := by
  unfold isHighSurrogate isLowSurrogate at h
  simp only [Bool.and_eq_true, decide_eq_true_eq] at h
  have hvalid : (0x10000 + (u.toNat - 0xD800) * 0x400 + (v.toNat - 0xDC00)).isValidChar := by
    unfold Nat.isValidChar
    omega
  have hvalue : (pairChar u v).toNat =
      0x10000 + (u.toNat - 0xD800) * 0x400 + (v.toNat - 0xDC00) := by
    unfold pairChar
    rw [Char.ofNat, dif_pos hvalid]
    rfl
  have hu : 0xD800 + ((pairChar u v).toNat - 0x10000) / 0x400 = u.toNat := by omega
  have hv : 0xDC00 + ((pairChar u v).toNat - 0x10000) % 0x400 = v.toNat := by omega
  unfold charUnits
  rw [if_neg (by omega), hu, hv, UInt16.ofNat_toNat, UInt16.ofNat_toNat]

theorem codePoints_cons {u : UInt16} (h : (isHighSurrogate u || isLowSurrogate u) = false)
    (s : JsString) : codePoints (u :: s) = some (Char.ofNat u.toNat) :: codePoints s := by
  have hhigh := (Bool.or_eq_false_iff.mp h).1
  cases s with
  | nil =>
      show [if isHighSurrogate u || isLowSurrogate u then none else some (Char.ofNat u.toNat)] = _
      rw [h]
      rfl
  | cons v s =>
      rw [codePoints, hhigh, Bool.false_and, if_neg Bool.false_ne_true, Bool.false_or,
        (Bool.or_eq_false_iff.mp h).2, if_neg Bool.false_ne_true]

theorem codePoints_charUnits (c : Char) (s : JsString) :
    codePoints (charUnits c ++ s) = some c :: codePoints s := by
  by_cases h : c.toNat < 0x10000
  · have hu : (UInt16.ofNat c.toNat).toNat = c.toNat := ofNat_toNat16 h
    rw [charUnits_single hu.symm, List.singleton_append, codePoints_cons (not_surrogate hu), hu,
      Char.ofNat_toNat]
  · obtain ⟨high, low, hunits, hpair, hc⟩ := charUnits_pair (Nat.le_of_not_lt h)
    rw [hunits]
    show codePoints (high :: low :: s) = _
    rw [codePoints, if_pos hpair, hc]

/-- **The units of a text read as its characters.** -/
theorem codePoints_unitsOf (text : List Char) : codePoints (unitsOf text) = text.map some := by
  induction text with
  | nil => rfl
  | cons c text ih =>
      show codePoints (charUnits c ++ unitsOf text) = _
      rw [codePoints_charUnits, ih]
      rfl

/-- **Units that read as the characters of a text are its units.** -/
theorem codePoints_eq_iff {s : JsString} {text : List Char} :
    codePoints s = text.map some ↔ s = unitsOf text := by
  refine ⟨fun h => ?_, fun h => h ▸ codePoints_unitsOf text⟩
  -- a first unit that is read as a character is the unit of the character
  have hsingle : ∀ {u : UInt16} {c : Char},
      (if isHighSurrogate u || isLowSurrogate u then none else some (Char.ofNat u.toNat)) =
        some c → charUnits c = [u] := by
    intro u c hc
    cases hu : isHighSurrogate u || isLowSurrogate u with
    | true =>
        rw [hu] at hc
        cases hc
    | false =>
        rw [hu] at hc
        rw [← Option.some.inj hc]
        exact charUnits_single (toNat_of_not_surrogate hu)
  induction s using codePoints.induct generalizing text with
  | case1 =>
      rw [List.map_eq_nil_iff.mp h.symm]
      rfl
  | case2 u =>
      obtain ⟨c, rest, rfl, hc, hrest⟩ := List.map_eq_cons_iff.mp h.symm
      rw [List.map_eq_nil_iff.mp hrest]
      show [u] = charUnits c ++ []
      rw [hsingle hc.symm]
      rfl
  | case3 u v s hpair ih =>
      rw [codePoints, if_pos hpair] at h
      obtain ⟨c, rest, rfl, hc, hrest⟩ := List.map_eq_cons_iff.mp h.symm
      show u :: v :: s = charUnits c ++ unitsOf rest
      rw [Option.some.inj hc, charUnits_pairChar hpair, ← ih hrest.symm]
      rfl
  | case4 u v s hpair ih =>
      rw [codePoints, if_neg hpair] at h
      obtain ⟨c, rest, rfl, hc, hrest⟩ := List.map_eq_cons_iff.mp h.symm
      show u :: v :: s = charUnits c ++ unitsOf rest
      rw [hsingle hc.symm, ← ih hrest.symm]
      rfl

theorem unitsOf_injective : Function.Injective unitsOf := by
  intro text text' h
  have hread := congrArg codePoints h
  rw [codePoints_unitsOf, codePoints_unitsOf] at hread
  exact List.map_injective_iff.mpr (fun _ _ => Option.some.inj) hread

theorem utf16_injective : Function.Injective utf16 := fun _ _ h =>
  String.toList_injective (unitsOf_injective h)

@[simp] theorem toWellFormed_unitsOf (text : List Char) : toWellFormed (unitsOf text) = text := by
  unfold toWellFormed
  rw [codePoints_unitsOf, List.map_map]
  exact List.map_id text

/-- **A string is well formed where it is a text.** -/
theorem isWellFormed_iff {s : JsString} : isWellFormed s = true ↔ unitsOf (toWellFormed s) = s := by
  constructor
  · intro h
    refine (codePoints_eq_iff.mp ?_).symm
    unfold toWellFormed
    rw [List.map_map]
    refine (List.map_id _).symm.trans (List.map_congr_left fun c hc => ?_)
    obtain ⟨d, rfl⟩ := Option.isSome_iff_exists.mp (List.all_eq_true.mp h c hc)
    rfl
  · intro h
    unfold isWellFormed
    rw [← h, codePoints_unitsOf, List.all_map]
    exact List.all_eq_true.mpr fun _ _ => rfl

@[simp] theorem isWellFormed_unitsOf (text : List Char) : isWellFormed (unitsOf text) = true := by
  rw [isWellFormed_iff, toWellFormed_unitsOf]

/-! ## 3. The order of units -/

/-- `left <= right`, on strings. -/
def Utf16Le (a b : String) : Prop := utf16 a ≤ utf16 b

instance : DecidableRel Utf16Le := fun a b => inferInstanceAs (Decidable (utf16 a ≤ utf16 b))

instance : Std.Total Utf16Le := ⟨fun a b => List.le_total (utf16 a) (utf16 b)⟩

instance : IsTrans String Utf16Le := ⟨fun _ _ _ h h' => List.le_trans h h'⟩

theorem Utf16Le.antisymm {a b : String} (h : Utf16Le a b) (h' : Utf16Le b a) : a = b :=
  utf16_injective (List.le_antisymm h h')

end Stowplan
