/-
  File:      Stowplan/Js/JsonParse.lean
  Subject:   THE VALUE OF A TEXT: `JSON.parse`, and that it reads what `JSON.stringify` writes.

  The parser knows the blanks between tokens, the escapes of strings, the forms of numbers and that
  the last of several equal keys counts. A lone surrogate is no character here: the parser refuses
  it. A decimal is read as the number it is.

  * `jsonParse`: the parser;
  * `readQuoted_escape`, `readNumber_toDigits`: a string and a whole number read back, with whatever
    follows them;
  * `Written`: the values whose text is their own: whole numbers only, and each key once;
  * `jsonParse_stringify`: such a value is read from its text.
-/
import Stowplan.Js.Escape
import Stowplan.Js.Json
import Stowplan.Js.Plain

namespace Stowplan

/-! ## 1. Strings -/

/-- Where the reader of a string stands. A high surrogate waits for the escape of a low one. -/
inductive QuoteState where
  | text
  | escape (high : Option Nat)
  | unit (high : Option Nat) (value left : Nat)
  | paired (high : Nat)

/-- The character that an escape of one letter stands for. -/
def shortEscape (c : Char) : Option Char :=
  if c = '"' then some '"'
  else if c = '\\' then some '\\'
  else if c = '/' then some '/'
  else if c = 'b' then some (Char.ofNat 8)
  else if c = 'f' then some (Char.ofNat 12)
  else if c = 'n' then some (Char.ofNat 10)
  else if c = 'r' then some (Char.ofNat 13)
  else if c = 't' then some (Char.ofNat 9)
  else none

/-- The reader has read the four digits of a unit. -/
def readUnit : Option Nat → Nat → Option (QuoteState × List Char)
  | none, unit =>
    if 0xD800 ≤ unit ∧ unit < 0xDC00 then some (.paired unit, [])
    else if 0xDC00 ≤ unit ∧ unit < 0xE000 then none
    else some (.text, [Char.ofNat unit])
  | some high, unit =>
    if 0xDC00 ≤ unit ∧ unit < 0xE000 then
      some (.text, [Char.ofNat (0x10000 + (high - 0xD800) * 0x400 + (unit - 0xDC00))])
    else none

/-- One character of a quoted text. -/
def QuoteState.step : QuoteState → Char → Option (QuoteState × List Char)
  | .text, c =>
    if c = '\\' then some (.escape none, [])
    else if c.toNat < 32 then none
    else some (.text, [c])
  | .escape high, c =>
    if c = 'u' then some (.unit high 0 4, [])
    else if high.isSome then none
    else (shortEscape c).map fun d => (.text, [d])
  | .unit high value left, c =>
    (hexValue c).bind fun digit =>
      if left ≤ 1 then readUnit high (16 * value + digit)
      else some (.unit high (16 * value + digit) (left - 1), [])
  | .paired high, c => if c = '\\' then some (.escape (some high), []) else none

/-- The quote that ends the string. -/
def QuoteState.closes : QuoteState → Char → Bool
  | .text, c => c == '"'
  | _, _ => false

/-- The text up to the closing quote, and what follows the quote. -/
def readQuoted : QuoteState → List Char → Option (List Char × List Char)
  | _, [] => none
  | state, c :: rest =>
    if state.closes c then some ([], rest)
    else (state.step c).bind fun next =>
      (readQuoted next.1 rest).map fun found => (next.2 ++ found.1, found.2)

/-! ## 2. Numbers -/

/-- One digit or more. -/
def readDigits (text : List Char) : Option (List Char × List Char) :=
  let digits := text.takeWhile Char.isDigit
  if digits.isEmpty then none else some (digits, text.dropWhile Char.isDigit)

/-- The digits of a whole number: a zero stands alone. -/
def readWhole : List Char → Option (List Char × List Char)
  | [] => none
  | c :: rest => if c = '0' then some (['0'], rest) else readDigits (c :: rest)

/-- The number some digits are. -/
def digitsValue (digits : List Char) : ℚ := (Nat.ofDigitChars 10 digits 0 : Nat)

/-- The digits behind a point, where there is one. -/
def readFraction : List Char → Option (ℚ × List Char)
  | [] => some (0, [])
  | c :: rest =>
    if c = '.' then
      (readDigits rest).map fun (digits, rest) => (digitsValue digits / 10 ^ digits.length, rest)
    else some (0, c :: rest)

/-- The digits of an exponent, and whether a minus sign stands before them. -/
def readSigned : List Char → Option (Bool × List Char × List Char)
  | [] => none
  | c :: rest =>
    (readDigits (if c = '+' ∨ c = '-' then rest else c :: rest)).map
      fun (digits, rest) => (c == '-', digits, rest)

/-- The power of ten that an exponent stands for. -/
def readExponent : List Char → Option (ℚ × List Char)
  | [] => some (1, [])
  | c :: rest =>
    if c = 'e' ∨ c = 'E' then
      (readSigned rest).map fun (negative, digits, rest) =>
        let power : ℚ := 10 ^ Nat.ofDigitChars 10 digits 0
        (if negative then power⁻¹ else power, rest)
    else some (1, c :: rest)

/-- A number without a minus sign. -/
def readMagnitude (text : List Char) : Option (ℚ × List Char) :=
  (readWhole text).bind fun (whole, text) =>
    (readFraction text).bind fun (fraction, text) =>
      (readExponent text).map fun (power, text) => ((digitsValue whole + fraction) * power, text)

/-- A number, with its sign. -/
def readNumber : List Char → Option (JsNumber × List Char)
  | [] => none
  | c :: rest =>
    if c = '-' then (readMagnitude rest).map fun (q, rest) => (.ofRat (-q), rest)
    else (readMagnitude (c :: rest)).map fun (q, rest) => (.ofRat q, rest)

/-! ## 3. Values -/

/-- A blank between two tokens. -/
def isJsonBlank (c : Char) : Bool := c == ' ' || c == '\t' || c == '\n' || c == '\r'

/-- The text from its first character that is not blank. -/
def skipBlanks (text : List Char) : List Char := text.dropWhile isJsonBlank

/-- What follows a word. -/
def afterWord : List Char → List Char → Option (List Char)
  | [], text => some text
  | _ :: _, [] => none
  | w :: word, c :: rest => if c = w then afterWord word rest else none

/-- What follows a sign, past blanks. -/
def afterSign (sign : Char) (text : List Char) : Option (List Char) :=
  afterWord [sign] (skipBlanks text)

/-- An object with these entries, of which the last under a key counts. -/
def objectOf (entries : List (String × JsValue)) : JsValue :=
  .obj (entries.foldl (fun fields entry => JsValue.setEntry entry.1 entry.2 fields) [])

mutual

/-- A value, and what follows it. -/
def readValue : Nat → List Char → Option (JsValue × List Char)
  | 0, _ => none
  | fuel + 1, text =>
    match skipBlanks text with
    | [] => none
    | c :: rest =>
      if c = '{' then
        match afterSign '}' rest with
        | some rest => some (.obj [], rest)
        | none => (readMembers fuel rest).map fun (entries, rest) => (objectOf entries, rest)
      else if c = '[' then
        match afterSign ']' rest with
        | some rest => some (.arr [], rest)
        | none => (readElements fuel rest).map fun (xs, rest) => (.arr xs, rest)
      else if c = '"' then
        (readQuoted .text rest).map fun (s, rest) => (.str (String.ofList s), rest)
      else if c = 'n' then (afterWord "ull".toList rest).map fun rest => (.null, rest)
      else if c = 't' then (afterWord "rue".toList rest).map fun rest => (.bool true, rest)
      else if c = 'f' then (afterWord "alse".toList rest).map fun rest => (.bool false, rest)
      else (readNumber (c :: rest)).map fun (x, rest) => (.num x, rest)

/-- The elements of an array, up to its end. -/
def readElements : Nat → List Char → Option (List JsValue × List Char)
  | 0, _ => none
  | fuel + 1, text =>
    (readValue fuel text).bind fun (x, rest) =>
      match afterSign ',' rest with
      | some rest => (readElements fuel rest).map fun (xs, rest) => (x :: xs, rest)
      | none => (afterSign ']' rest).map fun rest => ([x], rest)

/-- The entries of an object, up to its end. -/
def readMembers : Nat → List Char → Option (List (String × JsValue) × List Char)
  | 0, _ => none
  | fuel + 1, text =>
    (afterSign '"' text).bind fun rest =>
      (readQuoted .text rest).bind fun (key, rest) =>
        (afterSign ':' rest).bind fun rest =>
          (readValue fuel rest).bind fun (v, rest) =>
            match afterSign ',' rest with
            | some rest => (readMembers fuel rest).map fun (entries, rest) =>
                ((String.ofList key, v) :: entries, rest)
            | none => (afterSign '}' rest).map fun rest => ([(String.ofList key, v)], rest)

end

/-- `JSON.parse(text)`, which throws where there is nothing. Each token takes a character at
    least. -/
def jsonParse (text : List Char) : Option JsValue :=
  (readValue (text.length + 1) text).bind fun (v, rest) =>
    if (skipBlanks rest).isEmpty then some v else none

/-! ## 4. Strings read back -/

section Strings

theorem readQuoted_step {state next : QuoteState} {c : Char} {out : List Char}
    (hcloses : state.closes c = false) (h : state.step c = some (next, out)) (rest : List Char) :
    readQuoted state (c :: rest) =
      (readQuoted next rest).map fun found => (out ++ found.1, found.2) := by
  conv => lhs; unfold readQuoted
  rw [hcloses, if_neg Bool.false_ne_true, h]
  rfl

/-- A step that writes nothing. -/
theorem readQuoted_silent {state next : QuoteState} {c : Char} (hcloses : state.closes c = false)
    (h : state.step c = some (next, [])) (rest : List Char) :
    readQuoted state (c :: rest) = readQuoted next rest :=
  (readQuoted_step hcloses h rest).trans Option.map_id'

theorem readQuoted_short {c d : Char} (hu : c ≠ 'u') (h : shortEscape c = some d) (rest : List Char) :
    readQuoted .text ('\\' :: c :: rest) =
      (readQuoted .text rest).map fun found => (d :: found.1, found.2) := by
  have hstep : (QuoteState.escape none).step c = some (.text, [d]) := by
    unfold QuoteState.step
    dsimp only
    rw [if_neg hu, h]
    rfl
  rw [readQuoted_silent rfl rfl, readQuoted_step rfl hstep]
  rfl

theorem hexValue_digitChar : ∀ n < 16, hexValue (Nat.digitChar n) = some n := by decide

/-- The four digits of a control character. -/
theorem readQuoted_control {c : Char} (h : c.toNat < 32) (rest : List Char) :
    readQuoted .text (['\\', 'u', '0', '0'] ++ JsValue.hexPair c.toNat ++ rest) =
      (readQuoted .text rest).map fun found => (c :: found.1, found.2) := by
  have hzero : hexValue '0' = some 0 := by decide
  have hdigit : ∀ value left n, n < 16 → 1 < left →
      (QuoteState.unit none value left).step (Nat.digitChar n) =
        some (.unit none (16 * value + n) (left - 1), []) := by
    intro value left n hn hleft
    unfold QuoteState.step
    dsimp only
    rw [hexValue_digitChar n hn, Option.bind_some, if_neg (by omega)]
  have hlast : (QuoteState.unit none (c.toNat / 16) 1).step (Nat.digitChar (c.toNat % 16)) =
      some (.text, [c]) := by
    unfold QuoteState.step
    dsimp only
    rw [hexValue_digitChar _ (Nat.mod_lt _ (by omega)), Option.bind_some, if_pos (by omega),
      Nat.div_add_mod]
    unfold readUnit
    dsimp only
    rw [if_neg (by omega), if_neg (by omega), Char.ofNat_toNat]
  have hfirst := hdigit 0 4 0 (by omega) (by omega)
  have hsecond := hdigit 0 3 0 (by omega) (by omega)
  have hthird := hdigit 0 2 (c.toNat / 16) (by omega) (by omega)
  rw [Nat.mul_zero, Nat.zero_add] at hthird
  show readQuoted .text ('\\' :: 'u' :: Nat.digitChar 0 :: Nat.digitChar 0 ::
    Nat.digitChar (c.toNat / 16) :: Nat.digitChar (c.toNat % 16) :: rest) = _
  rw [readQuoted_silent rfl rfl, readQuoted_silent rfl rfl, readQuoted_silent rfl hfirst,
    readQuoted_silent rfl hsecond, readQuoted_silent rfl hthird, readQuoted_step rfl hlast]
  rfl

/-- **A character of a string is read back**, with whatever follows it. -/
theorem readQuoted_escape (c : Char) (rest : List Char) :
    readQuoted .text (JsValue.escapeChar c ++ rest) =
      (readQuoted .text rest).map fun found => (c :: found.1, found.2) := by
  have hcode : ∀ n, c.toNat = n → c = Char.ofNat n := by
    rintro n rfl
    exact (Char.ofNat_toNat c).symm
  unfold JsValue.escapeChar
  by_cases hquote : c = '"'
  · rw [if_pos hquote, hquote]
    exact readQuoted_short (by decide) rfl rest
  rw [if_neg hquote]
  by_cases hslash : c = '\\'
  · rw [if_pos hslash, hslash]
    exact readQuoted_short (by decide) rfl rest
  rw [if_neg hslash]
  by_cases hb : c.toNat = 8
  · rw [if_pos hb, hcode 8 hb]
    exact readQuoted_short (by decide) rfl rest
  rw [if_neg hb]
  by_cases ht : c.toNat = 9
  · rw [if_pos ht, hcode 9 ht]
    exact readQuoted_short (by decide) rfl rest
  rw [if_neg ht]
  by_cases hn : c.toNat = 10
  · rw [if_pos hn, hcode 10 hn]
    exact readQuoted_short (by decide) rfl rest
  rw [if_neg hn]
  by_cases hf : c.toNat = 12
  · rw [if_pos hf, hcode 12 hf]
    exact readQuoted_short (by decide) rfl rest
  rw [if_neg hf]
  by_cases hr : c.toNat = 13
  · rw [if_pos hr, hcode 13 hr]
    exact readQuoted_short (by decide) rfl rest
  rw [if_neg hr]
  by_cases hcontrol : c.toNat < 32
  · rw [if_pos hcontrol]
    exact readQuoted_control hcontrol rest
  rw [if_neg hcontrol]
  have hstep : QuoteState.text.step c = some (.text, [c]) := by
    unfold QuoteState.step
    dsimp only
    rw [if_neg hslash, if_neg hcontrol]
  have hcloses : QuoteState.text.closes c = false := beq_eq_false_iff_ne.mpr hquote
  exact readQuoted_step hcloses hstep rest

theorem readQuoted_flatMap (s rest : List Char) :
    readQuoted .text (s.flatMap JsValue.escapeChar ++ '"' :: rest) = some (s, rest) := by
  induction s with
  | nil => rfl
  | cons c s ih =>
      rw [List.flatMap_cons, List.append_assoc, readQuoted_escape, ih]
      rfl

end Strings

/-! ## 5. Whole numbers read back -/

section Numbers

/-- What may follow a value inside another, or the end. -/
def Ends : List Char → Prop
  | [] => True
  | c :: _ => c = ',' ∨ c = ']' ∨ c = '}'

variable {rest : List Char}

theorem Ends.takeWhile (h : Ends rest) : rest.takeWhile Char.isDigit = [] ∧
    rest.dropWhile Char.isDigit = rest := by
  cases rest with
  | nil => exact ⟨rfl, rfl⟩
  | cons c rest =>
      have hdigit : c.isDigit = false := by
        rcases h with rfl | rfl | rfl <;> decide
      exact ⟨List.takeWhile_cons_of_neg (by rw [hdigit]; exact Bool.false_ne_true),
        List.dropWhile_cons_of_neg (by rw [hdigit]; exact Bool.false_ne_true)⟩

theorem readDigits_append {digits : List Char} (hdigits : ∀ c ∈ digits, c.isDigit = true)
    (hne : digits ≠ []) (h : Ends rest) : readDigits (digits ++ rest) = some (digits, rest) := by
  unfold readDigits
  rw [List.takeWhile_append_of_pos hdigits, List.dropWhile_append_of_pos hdigits, h.takeWhile.1,
    h.takeWhile.2, List.append_nil]
  dsimp only
  rw [if_neg fun hempty => hne (List.isEmpty_iff.mp hempty)]

/-- No zero leads the digits of a number, unless it is the number. -/
theorem toDigits_zero_first {n : Nat} {digits : List Char}
    (h : Nat.toDigits 10 n = '0' :: digits) : digits = [] := by
  induction n using Nat.strong_induction_on generalizing digits with
  | _ n ih =>
      rw [Nat.toDigits_eq_if (by omega)] at h
      split at h
      · exact ((List.cons.inj h).2).symm
      · rename_i hlarge
        cases hfirst : Nat.toDigits 10 (n / 10) with
        | nil => exact absurd hfirst Nat.toDigits_ne_nil
        | cons c first =>
            rw [hfirst, List.cons_append] at h
            obtain ⟨rfl, -⟩ := List.cons.inj h
            have hnil := ih (n / 10) (by omega) hfirst
            have hzero := Nat.ofDigitChars_ten_toDigits (n := n / 10)
            rw [hfirst, hnil] at hzero
            have : Nat.ofDigitChars 10 ['0'] 0 = 0 := by decide
            omega

theorem readWhole_toDigits (n : Nat) (h : Ends rest) :
    readWhole (Nat.toDigits 10 n ++ rest) = some (Nat.toDigits 10 n, rest) := by
  have hdigits : ∀ c ∈ Nat.toDigits 10 n, c.isDigit = true := fun c hc =>
    Nat.isDigit_of_mem_toDigits (by omega) (by omega) hc
  have hread := readDigits_append hdigits Nat.toDigits_ne_nil h
  cases htext : Nat.toDigits 10 n with
  | nil => exact absurd htext Nat.toDigits_ne_nil
  | cons c digits =>
      rw [htext] at hread
      rw [List.cons_append] at hread ⊢
      unfold readWhole
      dsimp only
      by_cases hc : c = '0'
      · rw [hc] at htext
        rw [if_pos hc, hc, toDigits_zero_first htext]
        rfl
      · rw [if_neg hc]
        exact hread

/-- **A whole number is read back**, with whatever follows it. -/
theorem readNumber_toDigits {n : Nat} (hn : n < 2 ^ 53) (h : Ends rest) :
    readNumber (Nat.toDigits 10 n ++ rest) = some (.ofInt n, rest) := by
  have hfraction : readFraction rest = some (0, rest) := by
    cases rest with
    | nil => rfl
    | cons c rest =>
        refine if_neg ?_
        rcases h with rfl | rfl | rfl <;> decide
  have hexponent : readExponent rest = some (1, rest) := by
    cases rest with
    | nil => rfl
    | cons c rest =>
        refine if_neg ?_
        rcases h with rfl | rfl | rfl <;> decide
  have hmagnitude : readMagnitude (Nat.toDigits 10 n ++ rest) = some ((n : ℚ), rest) := by
    have hvalue : digitsValue (Nat.toDigits 10 n) = n := by
      unfold digitsValue
      rw [Nat.ofDigitChars_ten_toDigits]
    unfold readMagnitude
    rw [readWhole_toDigits n h, Option.bind_some]
    dsimp only
    rw [hfraction, Option.bind_some]
    dsimp only
    rw [hexponent, Option.map_some, hvalue, add_zero, mul_one]
  have hsmall : JsNumber.ofRat n = .ofInt n := by
    have hlt : (n : ℚ) < 2 ^ 53 := by exact_mod_cast hn
    have hmax : (2 : ℚ) ^ 53 ≤ JsNumber.maxValue := by decide +kernel
    have hpos : (0 : ℚ) ≤ n := Nat.cast_nonneg n
    exact JsNumber.ofRat_of_le (by linarith) (by linarith)
  cases htext : Nat.toDigits 10 n with
  | nil => exact absurd htext Nat.toDigits_ne_nil
  | cons c digits =>
      have hdigit : c.isDigit = true :=
        Nat.isDigit_of_mem_toDigits (b := 10) (n := n) (by omega) (by omega)
          (htext ▸ List.mem_cons_self)
      have hc : c ≠ '-' := by
        rintro rfl
        revert hdigit
        decide
      rw [htext] at hmagnitude
      rw [List.cons_append] at hmagnitude ⊢
      unfold readNumber
      dsimp only
      rw [if_neg hc, hmagnitude, Option.map_some, hsmall]

end Numbers

/-! ## 6. Values read back -/

/-- A host that writes whole numbers in decimal, up to the largest safe one. -/
class DecimalHost extends Host where
  numberText_whole : ∀ n : Nat, n < 2 ^ 53 → numberText (.ofInt n) = toString n

section Values

open JsValue

/-- A whole number that is not negative. -/
def wholeNumber (x : JsNumber) : Bool :=
  match x.toInt? with
  | some n => decide (0 ≤ n) && decide (n < 2 ^ 53)
  | none => false

mutual

/-- The text of the value is its own: nothing inside is `undefined`, numbers are whole, and each
    key of an object stands there once. -/
def written : JsValue → Bool
  | .undefined => false
  | .num x => wholeNumber x
  | .arr xs => writtenList xs
  | .obj fields => writtenFields fields && decide (fields.map (·.1)).Nodup
  | _ => true

/-- Each element can be written. -/
def writtenList : List JsValue → Bool
  | [] => true
  | x :: xs => written x && writtenList xs

/-- Each field can be written. -/
def writtenFields : List (String × JsValue) → Bool
  | [] => true
  | (_, v) :: rest => written v && writtenFields rest

end

theorem wholeNumber_iff {x : JsNumber} :
    wholeNumber x = true ↔ ∃ n : Nat, n < 2 ^ 53 ∧ x = .ofInt n := by
  unfold wholeNumber JsNumber.toInt?
  constructor
  · intro h
    cases x with
    | finite q =>
        dsimp only at h
        split at h
        · rename_i n hn
          rw [Bool.and_eq_true, decide_eq_true_eq, decide_eq_true_eq] at h
          split at hn
          · rename_i hden
            obtain rfl := Option.some.inj hn
            refine ⟨q.num.toNat, by omega, ?_⟩
            unfold JsNumber.ofInt
            rw [Int.toNat_of_nonneg h.1]
            exact congrArg JsNumber.finite (Rat.coe_int_num_of_den_eq_one hden).symm
          · cases hn
        · cases h
    | nan | posInf | negInf => cases h
  · rintro ⟨n, hn, rfl⟩
    unfold JsNumber.ofInt
    dsimp only
    rw [Rat.den_intCast, if_pos rfl, Rat.num_intCast]
    dsimp only
    rw [Bool.and_eq_true, decide_eq_true_eq, decide_eq_true_eq]
    omega

/-- A sign that a value begins with: no blank, and no end. -/
def Begins (c : Char) : Prop := isJsonBlank c = false ∧ c ≠ ']'

theorem skipBlanks_cons {c : Char} (h : isJsonBlank c = false) (rest : List Char) :
    skipBlanks (c :: rest) = c :: rest :=
  List.dropWhile_cons_of_neg (by rw [h]; exact Bool.false_ne_true)

theorem afterSign_self {sign : Char} (h : isJsonBlank sign = false) (rest : List Char) :
    afterSign sign (sign :: rest) = some rest := by
  unfold afterSign
  rw [skipBlanks_cons h]
  exact if_pos rfl

theorem afterSign_other {sign c : Char} (h : isJsonBlank c = false) (hne : c ≠ sign)
    (rest : List Char) : afterSign sign (c :: rest) = none := by
  unfold afterSign
  rw [skipBlanks_cons h]
  exact if_neg hne

variable [DecimalHost]

/-- The characters of a value as JSON. -/
def jsonChars (v : JsValue) : List Char := (stringify v).toList

/-- The texts of elements, with commas between them. -/
def elementsChars : List JsValue → List Char
  | [] => []
  | [x] => jsonChars x
  | x :: y :: xs => jsonChars x ++ ',' :: elementsChars (y :: xs)

/-- The text of an entry. -/
def entryChars (entry : String × JsValue) : List Char :=
  '"' :: (entry.1.toList.flatMap JsValue.escapeChar ++ '"' :: ':' :: jsonChars entry.2)

/-- The texts of entries, with commas between them. -/
def membersChars : List (String × JsValue) → List Char
  | [] => []
  | [entry] => entryChars entry
  | entry :: next :: rest => entryChars entry ++ ',' :: membersChars (next :: rest)

theorem jsonChars_null : jsonChars .null = ['n', 'u', 'l', 'l'] := by
  unfold jsonChars
  rw [stringify]
  decide

theorem jsonChars_bool (b : Bool) : jsonChars (.bool b) =
    if b then ['t', 'r', 'u', 'e'] else ['f', 'a', 'l', 's', 'e'] := by
  unfold jsonChars
  rw [stringify]
  cases b <;> decide

theorem jsonChars_str (s : String) :
    jsonChars (.str s) = '"' :: (s.toList.flatMap JsValue.escapeChar ++ ['"']) := by
  unfold jsonChars
  rw [stringify]
  unfold quoteText
  rw [String.toList_ofList, List.append_assoc]
  rfl

theorem jsonChars_num {n : Nat} (hn : n < 2 ^ 53) :
    jsonChars (.num (.ofInt n)) = Nat.toDigits 10 n := by
  have hfinite : (JsNumber.ofInt n).isFinite = true := by
    have hlt : (n : ℚ) < 2 ^ 53 := by exact_mod_cast hn
    have hmax : (2 : ℚ) ^ 53 ≤ JsNumber.maxValue := by decide +kernel
    have hpos : (0 : ℚ) ≤ n := Nat.cast_nonneg n
    unfold JsNumber.ofInt JsNumber.isFinite
    dsimp only
    rw [decide_eq_true_eq, Int.cast_natCast]
    exact ⟨by linarith, by linarith⟩
  unfold jsonChars
  rw [stringify, if_pos hfinite, DecimalHost.numberText_whole n hn, Nat.toString_eq_ofList_toDigits,
    String.toList_ofList]

theorem jsonChars_arr (xs : List JsValue) :
    jsonChars (.arr xs) = '[' :: (elementsChars xs ++ [']']) := by
  have hlist : (String.intercalate "," (stringifyList xs)).toList = elementsChars xs := by
    induction xs with
    | nil => rfl
    | cons x xs ih =>
        cases xs with
        | nil => rw [stringifyList, stringifyList, String.intercalate_singleton]; rfl
        | cons y ys =>
            rw [stringifyList] at ih ⊢
            rw [stringifyList, String.intercalate_cons_cons, String.toList_append,
              String.toList_append, ih]
            simp [elementsChars, jsonChars]
  unfold jsonChars
  rw [stringify, String.toList_append, String.toList_append, hlist]
  rfl

theorem stringifyFields_cons (k : String) {v : JsValue} (h : v ≠ .undefined)
    (rest : List (String × JsValue)) : stringifyFields ((k, v) :: rest) =
      (quoteText k ++ ":" ++ stringify v) :: stringifyFields rest := by
  rw [stringifyFields]
  exact h

theorem jsonChars_obj {fields : List (String × JsValue)} (h : writtenFields fields = true) :
    jsonChars (.obj fields) = '{' :: (membersChars fields ++ ['}']) := by
  have hentry : ∀ (k : String) (v : JsValue),
      (quoteText k ++ ":" ++ stringify v).toList = entryChars (k, v) := by
    intro k v
    unfold quoteText entryChars jsonChars
    simp
  have hdefined : ∀ {v : JsValue}, written v = true → v ≠ .undefined := by
    rintro v hv rfl
    cases hv
  have hlist : (String.intercalate "," (stringifyFields fields)).toList = membersChars fields := by
    induction fields with
    | nil => rfl
    | cons entry fields ih =>
        obtain ⟨k, v⟩ := entry
        obtain ⟨hv, hrest⟩ := Bool.and_eq_true_iff.mp h
        have ih := ih hrest
        rw [stringifyFields_cons k (hdefined hv)]
        cases fields with
        | nil =>
            rw [stringifyFields, String.intercalate_singleton]
            exact hentry k v
        | cons next rest =>
            obtain ⟨k', v'⟩ := next
            have hv' := (Bool.and_eq_true_iff.mp hrest).1
            rw [stringifyFields_cons k' (hdefined hv')] at ih ⊢
            rw [String.intercalate_cons_cons, String.toList_append, String.toList_append, ih,
              hentry]
            simp [membersChars]
  unfold jsonChars
  rw [stringify, String.toList_append, String.toList_append, hlist]
  rfl

/-- A value begins with a sign that is no blank and ends no array. -/
theorem jsonChars_begins {v : JsValue} (h : written v = true) :
    ∃ c text, jsonChars v = c :: text ∧ Begins c := by
  cases v with
  | undefined => cases h
  | null => exact ⟨'n', _, jsonChars_null, by decide, by decide⟩
  | bool b =>
      cases b with
      | true => exact ⟨'t', _, jsonChars_bool true, by decide, by decide⟩
      | false => exact ⟨'f', _, jsonChars_bool false, by decide, by decide⟩
  | num x =>
      obtain ⟨n, hn, rfl⟩ := wholeNumber_iff.mp h
      rw [jsonChars_num hn]
      cases htext : Nat.toDigits 10 n with
      | nil => exact absurd htext Nat.toDigits_ne_nil
      | cons c digits =>
          have hdigit : c.isDigit = true := Nat.isDigit_of_mem_toDigits (b := 10) (n := n)
            (by omega) (by omega) (htext ▸ List.mem_cons_self)
          refine ⟨c, digits, rfl, ?_, ?_⟩
          · rw [Bool.eq_false_iff]
            intro hblank
            simp only [isJsonBlank, Bool.or_eq_true, beq_iff_eq] at hblank
            rcases hblank with ((rfl | rfl) | rfl) | rfl
            all_goals
              revert hdigit
              decide
          · rintro rfl
            revert hdigit
            decide
  | str s => exact ⟨'"', _, jsonChars_str s, by decide, by decide⟩
  | arr xs => exact ⟨'[', _, jsonChars_arr xs, by decide, by decide⟩
  | obj fields =>
      exact ⟨'{', _, jsonChars_obj (Bool.and_eq_true_iff.mp h).1, by decide, by decide⟩

omit [DecimalHost] in
/-- A number begins with a digit. -/
theorem readValue_number {fuel n : Nat} (hn : n < 2 ^ 53) {rest : List Char} (h : Ends rest) :
    readValue (fuel + 1) (Nat.toDigits 10 n ++ rest) = some (.num (.ofInt n), rest) := by
  have hread := readNumber_toDigits hn h
  cases htext : Nat.toDigits 10 n with
  | nil => exact absurd htext Nat.toDigits_ne_nil
  | cons c digits =>
      have hdigit : c.isDigit = true := Nat.isDigit_of_mem_toDigits (b := 10) (n := n)
        (by omega) (by omega) (htext ▸ List.mem_cons_self)
      have hne : ∀ d : Char, d.isDigit = false → c ≠ d := by
        rintro d hd rfl
        rw [hd] at hdigit
        cases hdigit
      have hblank : isJsonBlank c = false := by
        unfold isJsonBlank
        rw [beq_eq_false_iff_ne.mpr (hne _ (by decide)), beq_eq_false_iff_ne.mpr (hne _ (by decide)),
          beq_eq_false_iff_ne.mpr (hne _ (by decide)), beq_eq_false_iff_ne.mpr (hne _ (by decide))]
        rfl
      rw [htext, List.cons_append] at hread
      rw [List.cons_append, readValue, skipBlanks_cons hblank]
      dsimp only
      rw [if_neg (hne _ (by decide)), if_neg (hne _ (by decide)), if_neg (hne _ (by decide)),
        if_neg (hne _ (by decide)), if_neg (hne _ (by decide)), if_neg (hne _ (by decide)), hread]
      rfl

omit [DecimalHost] in
theorem readValue_string (fuel : Nat) (s : String) (rest : List Char) :
    readValue (fuel + 1) ('"' :: (s.toList.flatMap JsValue.escapeChar ++ '"' :: rest)) =
      some (.str s, rest) := by
  rw [readValue, skipBlanks_cons (by decide)]
  dsimp only
  rw [if_neg (by decide), if_neg (by decide), if_pos rfl, readQuoted_flatMap, Option.map_some,
    String.ofList_toList]

omit [DecimalHost] in
/-- An array begins with a value, or ends at once. -/
theorem readValue_array {fuel : Nat} {c : Char} {text rest : List Char} {xs : List JsValue}
    (hc : Begins c) (h : readElements fuel (c :: text) = some (xs, rest)) :
    readValue (fuel + 1) ('[' :: c :: text) = some (.arr xs, rest) := by
  rw [readValue, skipBlanks_cons (by decide)]
  dsimp only
  rw [if_neg (by decide), if_pos rfl, afterSign_other hc.1 hc.2]
  dsimp only
  rw [h]
  rfl

omit [DecimalHost] in
theorem readValue_object {fuel : Nat} {text rest : List Char} {entries : List (String × JsValue)}
    (h : readMembers fuel ('"' :: text) = some (entries, rest)) :
    readValue (fuel + 1) ('{' :: '"' :: text) = some (objectOf entries, rest) := by
  rw [readValue, skipBlanks_cons (by decide)]
  dsimp only
  rw [if_pos rfl, afterSign_other (by decide) (by decide)]
  dsimp only
  rw [h]
  rfl

omit [DecimalHost] in
theorem setEntry_of_not_mem {k : String} {fields : List (String × JsValue)}
    (h : k ∉ fields.map (·.1)) (v : JsValue) : setEntry k v fields = fields ++ [(k, v)] := by
  induction fields with
  | nil => rfl
  | cons entry fields ih =>
      obtain ⟨l, w⟩ := entry
      rw [List.map_cons, List.mem_cons, not_or] at h
      rw [setEntry, if_neg (Ne.symm h.1), ih h.2]
      rfl

omit [DecimalHost] in
/-- Entries under different keys are the entries of their object. -/
theorem objectOf_nodup {entries : List (String × JsValue)} (h : (entries.map (·.1)).Nodup) :
    objectOf entries = .obj entries := by
  have hfold : ∀ (entries fields : List (String × JsValue)),
      ((fields ++ entries).map (·.1)).Nodup →
      entries.foldl (fun fields entry => setEntry entry.1 entry.2 fields) fields =
        fields ++ entries := by
    intro entries
    induction entries with
    | nil => exact fun fields _ => (List.append_nil fields).symm
    | cons entry entries ih =>
        intro fields hnodup
        have hnew : entry.1 ∉ fields.map (·.1) := by
          rw [List.map_append, List.map_cons] at hnodup
          exact fun hmem => (List.nodup_append.mp hnodup).2.2 _ hmem _ List.mem_cons_self rfl
        rw [List.foldl_cons, setEntry_of_not_mem hnew, ih, List.append_assoc]
        · rfl
        · rw [List.append_assoc]
          exact hnodup
  unfold objectOf
  rw [hfold entries [] h]
  rfl

mutual

/-- **A value is read back from its text**, with whatever follows it. -/
theorem readValue_written : ∀ v : JsValue, written v = true → ∀ (fuel : Nat) (rest : List Char),
    (jsonChars v).length < fuel → Ends rest → readValue fuel (jsonChars v ++ rest) = some (v, rest)
  | .undefined, h => nomatch h
  | .null, _ => by
      intro fuel rest hfuel _
      obtain ⟨fuel, rfl⟩ := Nat.exists_eq_add_one.mpr (Nat.zero_lt_of_lt hfuel)
      rw [jsonChars_null]
      rfl
  | .bool b, _ => by
      intro fuel rest hfuel _
      obtain ⟨fuel, rfl⟩ := Nat.exists_eq_add_one.mpr (Nat.zero_lt_of_lt hfuel)
      rw [jsonChars_bool]
      cases b <;> rfl
  | .num x, h => by
      intro fuel rest hfuel hrest
      obtain ⟨fuel, rfl⟩ := Nat.exists_eq_add_one.mpr (Nat.zero_lt_of_lt hfuel)
      obtain ⟨n, hn, rfl⟩ := wholeNumber_iff.mp h
      rw [jsonChars_num hn]
      exact readValue_number hn hrest
  | .str s, _ => by
      intro fuel rest hfuel _
      obtain ⟨fuel, rfl⟩ := Nat.exists_eq_add_one.mpr (Nat.zero_lt_of_lt hfuel)
      rw [jsonChars_str, List.cons_append, List.append_assoc]
      exact readValue_string fuel s rest
  | .arr [], _ => by
      intro fuel rest hfuel _
      obtain ⟨fuel, rfl⟩ := Nat.exists_eq_add_one.mpr (Nat.zero_lt_of_lt hfuel)
      rw [jsonChars_arr]
      rfl
  | .arr (x :: xs), h => by
      intro fuel rest hfuel _
      obtain ⟨fuel, rfl⟩ := Nat.exists_eq_add_one.mpr (Nat.zero_lt_of_lt hfuel)
      rw [jsonChars_arr] at hfuel ⊢
      rw [List.length_cons, List.length_append, List.length_singleton] at hfuel
      have hread := readElements_written (x :: xs) (List.cons_ne_nil _ _) h fuel rest (by omega)
      obtain ⟨c, text, hbegin, hc⟩ := jsonChars_begins (Bool.and_eq_true_iff.mp h).1
      have hfirst : ∃ text', elementsChars (x :: xs) = c :: text' := by
        cases xs with
        | nil => exact ⟨text, hbegin⟩
        | cons y ys =>
            unfold elementsChars
            rw [hbegin]
            exact ⟨_, rfl⟩
      obtain ⟨text', htext⟩ := hfirst
      rw [htext] at hread ⊢
      rw [List.cons_append, List.append_assoc]
      exact readValue_array hc hread
  | .obj fields, h => by
      intro fuel rest hfuel _
      obtain ⟨fuel, rfl⟩ := Nat.exists_eq_add_one.mpr (Nat.zero_lt_of_lt hfuel)
      obtain ⟨hfields, hnodup⟩ := Bool.and_eq_true_iff.mp h
      rw [jsonChars_obj hfields] at hfuel ⊢
      rw [List.length_cons, List.length_append, List.length_singleton] at hfuel
      cases fields with
      | nil => rfl
      | cons entry fields =>
          have hread := readMembers_written (entry :: fields) (List.cons_ne_nil _ _) hfields fuel rest
            (by omega)
          have hfirst : ∃ text, membersChars (entry :: fields) = '"' :: text := by
            cases fields with
            | nil => exact ⟨_, rfl⟩
            | cons next fields =>
                unfold membersChars entryChars
                exact ⟨_, rfl⟩
          obtain ⟨text, htext⟩ := hfirst
          rw [htext] at hread ⊢
          rw [List.cons_append, List.append_assoc, List.cons_append, List.singleton_append]
          rw [List.cons_append] at hread
          rw [readValue_object hread, objectOf_nodup (of_decide_eq_true hnodup)]

theorem readElements_written : ∀ xs : List JsValue, xs ≠ [] → writtenList xs = true →
    ∀ (fuel : Nat) (rest : List Char), (elementsChars xs).length + 1 < fuel →
      readElements fuel (elementsChars xs ++ ']' :: rest) = some (xs, rest)
  | [], hne, _, _, _, _ => absurd rfl hne
  | [x], _, h, fuel + 1, rest, hfuel => by
      have hread := readValue_written x (Bool.and_eq_true_iff.mp h).1 fuel (']' :: rest)
        (by unfold elementsChars at hfuel; omega) (.inr (.inl rfl))
      rw [readElements]
      unfold elementsChars
      rw [hread, Option.bind_some]
      dsimp only
      rw [afterSign_other (by decide) (by decide), afterSign_self (by decide)]
      rfl
  | x :: y :: ys, _, h, fuel + 1, rest, hfuel => by
      obtain ⟨hx, hys⟩ := Bool.and_eq_true_iff.mp h
      unfold elementsChars at hfuel ⊢
      rw [List.length_append, List.length_cons] at hfuel
      have hread := readValue_written x hx fuel (',' :: (elementsChars (y :: ys) ++ ']' :: rest))
        (by omega) (.inl rfl)
      have hnext := readElements_written (y :: ys) (List.cons_ne_nil _ _) hys fuel rest (by omega)
      rw [List.append_assoc, List.cons_append, readElements, hread, Option.bind_some]
      dsimp only
      rw [afterSign_self (by decide)]
      dsimp only
      rw [hnext]
      rfl

theorem readMembers_written : ∀ fields : List (String × JsValue), fields ≠ [] →
    writtenFields fields = true → ∀ (fuel : Nat) (rest : List Char),
      (membersChars fields).length + 1 < fuel →
      readMembers fuel (membersChars fields ++ '}' :: rest) = some (fields, rest)
  | [], hne, _, _, _, _ => absurd rfl hne
  | [(k, v)], _, h, fuel + 1, rest, hfuel => by
      have hlength : (jsonChars v).length < fuel := by
        unfold membersChars entryChars at hfuel
        simp only [List.length_cons, List.length_append] at hfuel
        omega
      have hread := readValue_written v (Bool.and_eq_true_iff.mp h).1 fuel ('}' :: rest) hlength
        (.inr (.inr rfl))
      unfold membersChars entryChars
      rw [readMembers, List.cons_append, afterSign_self (by decide), Option.bind_some,
        List.append_assoc, List.cons_append, readQuoted_flatMap, Option.bind_some]
      dsimp only
      rw [List.cons_append, afterSign_self (by decide), Option.bind_some, hread, Option.bind_some]
      dsimp only
      rw [afterSign_other (by decide) (by decide), afterSign_self (by decide), String.ofList_toList]
      rfl
  | (k, v) :: next :: fields, _, h, fuel + 1, rest, hfuel => by
      obtain ⟨hv, hfields⟩ := Bool.and_eq_true_iff.mp h
      have hlength : (jsonChars v).length < fuel ∧ (membersChars (next :: fields)).length + 1 < fuel := by
        unfold membersChars entryChars at hfuel
        simp only [List.length_cons, List.length_append] at hfuel
        omega
      have hread := readValue_written v hv fuel
        (',' :: (membersChars (next :: fields) ++ '}' :: rest)) hlength.1 (.inl rfl)
      have hnext := readMembers_written (next :: fields) (List.cons_ne_nil _ _) hfields fuel rest
        hlength.2
      unfold membersChars entryChars
      rw [List.append_assoc, readMembers, List.cons_append, afterSign_self (by decide),
        Option.bind_some, List.append_assoc, List.cons_append, readQuoted_flatMap, Option.bind_some]
      dsimp only
      rw [List.cons_append, afterSign_self (by decide), Option.bind_some, List.cons_append, hread,
        Option.bind_some]
      dsimp only
      rw [afterSign_self (by decide)]
      dsimp only
      rw [hnext, String.ofList_toList]
      rfl

end

/-- **A value whose text is its own is read from it.** -/
theorem jsonParse_stringify {v : JsValue} (h : written v = true) :
    jsonParse (stringify v).toList = some v := by
  have hread := readValue_written v h ((jsonChars v).length + 1) [] (Nat.lt_succ_self _) trivial
  rw [List.append_nil] at hread
  unfold jsonParse
  rw [show readValue ((stringify v).toList.length + 1) (stringify v).toList = some (v, []) from hread]
  rfl

end Values

end Stowplan
