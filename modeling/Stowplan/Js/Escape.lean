/-
  File:      Stowplan/Js/Escape.lean
  Subject:   PERCENT ESCAPES: how a text is written into a URL, and `decodeURIComponent`.

  A character that a URL may not hold is written as the bytes of its UTF-8 encoding, each as a
  percent sign and two digits. `decodeURIComponent` reads such escapes back, once: what an escape
  stands for may be the beginning of an escape again.

  * `decodeURIComponent`: a machine over the characters of a text;
  * `Escapes`: one text is another with some of its characters escaped;
  * `Escapes.decode`: both decode to the same;
  * `decodeURIComponent_shorter`: a decoding that changes a text makes it shorter;
  * `encodeURIComponent_decode`: what `encodeURIComponent` writes decodes to the text it was given.
-/
import Mathlib.Algebra.GroupWithZero.Nat
import Mathlib.Data.List.Basic

namespace Stowplan

/-! ## 1. Escapes -/

/-- The value of a hexadecimal digit. -/
def hexValue (c : Char) : Option Nat :=
  if '0' ≤ c ∧ c ≤ '9' then some (c.toNat - 48)
  else if 'A' ≤ c ∧ c ≤ 'F' then some (c.toNat - 55)
  else if 'a' ≤ c ∧ c ≤ 'f' then some (c.toNat - 87)
  else none

/-- The digit of a number below sixteen. -/
def hexDigit (n : Nat) : Char := Char.ofNat (if n < 10 then 48 + n else 55 + n)

/-- `%` and two digits. -/
def escapeByte (b : UInt8) : List Char :=
  ['%', hexDigit (b.toNat / 16), hexDigit (b.toNat % 16)]

/-- The bytes of a character, each escaped. -/
def escapeChar (c : Char) : List Char := (String.utf8EncodeChar c).flatMap escapeByte

/-- The text with the characters of a set escaped. -/
def percentEncode (set : Char → Bool) (text : List Char) : List Char :=
  text.flatMap fun c => if set c then escapeChar c else [c]

/-! ## 2. Decoding -/

/-- The number of bytes of the character that a byte begins. -/
def utf8Width (b : UInt8) : Option Nat :=
  if b.toNat < 0x80 then some 1
  else if b.toNat < 0xC0 then none
  else if b.toNat < 0xE0 then some 2
  else if b.toNat < 0xF0 then some 3
  else if b.toNat < 0xF8 then some 4
  else none

/-- A byte that continues a character. -/
def isContinuation (b : UInt8) : Bool := decide (0x80 ≤ b.toNat) && decide (b.toNat < 0xC0)

/-- The character with these bytes, which must be its encoding. -/
def utf8Char (bytes : List UInt8) : Option Char := bytes.toByteArray.utf8DecodeChar? 0

/-- Where the decoder stands. Within a character it holds the bytes so far and the number of
    those to come. -/
inductive DecodeState where
  | text
  | percent (pending : Option (List UInt8 × Nat))
  | digit (pending : Option (List UInt8 × Nat)) (high : Nat)
  | more (bytes : List UInt8) (left : Nat)

/-- The decoder has read the escape of a byte. -/
def decodeByte : Option (List UInt8 × Nat) → UInt8 → Option (DecodeState × List Char)
  | none, b =>
    match utf8Width b with
    | none => none
    | some 1 => some (.text, [Char.ofNat b.toNat])
    | some width => some (.more [b] (width - 1), [])
  | some (bytes, left), b =>
    if isContinuation b then
      if left ≤ 1 then (utf8Char (bytes ++ [b])).map fun c => (.text, [c])
      else some (.more (bytes ++ [b]) (left - 1), [])
    else none

/-- One character of an escaped text. -/
def DecodeState.step : DecodeState → Char → Option (DecodeState × List Char)
  | .text, c => if c = '%' then some (.percent none, []) else some (.text, [c])
  | .percent pending, c => (hexValue c).map fun high => (.digit pending high, [])
  | .digit pending high, c =>
    (hexValue c).bind fun low => decodeByte pending (UInt8.ofNat (16 * high + low))
  | .more bytes left, c => if c = '%' then some (.percent (some (bytes, left)), []) else none

/-- The text that is decoded from here on; nothing where an escape is malformed. -/
def decodeFrom : DecodeState → List Char → Option (List Char)
  | .text, [] => some []
  | _, [] => none
  | state, c :: rest =>
    (state.step c).bind fun next => (decodeFrom next.1 rest).map fun text => next.2 ++ text

/-- `decodeURIComponent(text)`, which throws where there is nothing. -/
def decodeURIComponent (text : List Char) : Option (List Char) := decodeFrom .text text

/-- The text decoded that many times. -/
def decodings : Nat → List Char → Option (List Char)
  | 0, text => some text
  | k + 1, text => (decodeURIComponent text).bind (decodings k)

/-! ## 3. Escapes and their decoding -/

section Decode

variable {c : Char} {b : UInt8} {text text' : List Char}

theorem hexValue_hexDigit : ∀ n < 16, hexValue (hexDigit n) = some n := by decide

theorem decodeFrom_cons (state : DecodeState) (c : Char) (text : List Char) :
    decodeFrom state (c :: text) = (state.step c).bind fun next =>
      (decodeFrom next.1 text).map fun rest => next.2 ++ rest := by
  cases state <;> rfl

/-- A step of the decoder, and the rest. -/
theorem decodeFrom_step {state next : DecodeState} {c : Char} {out : List Char}
    (h : state.step c = some (next, out)) (text : List Char) :
    decodeFrom state (c :: text) = (decodeFrom next text).map fun rest => out ++ rest := by
  rw [decodeFrom_cons, h]
  rfl

/-- A step that writes nothing. -/
theorem decodeFrom_silent {state next : DecodeState} {c : Char}
    (h : state.step c = some (next, [])) (text : List Char) :
    decodeFrom state (c :: text) = decodeFrom next text :=
  (decodeFrom_step h text).trans Option.map_id'

theorem decodeFrom_escapeByte (pending : Option (List UInt8 × Nat)) (b : UInt8) :
    decodeFrom (.percent pending) (hexDigit (b.toNat / 16) :: hexDigit (b.toNat % 16) :: text) =
      (decodeByte pending b).bind fun next =>
        (decodeFrom next.1 text).map fun rest => next.2 ++ rest := by
  have hlt := b.toNat_lt
  have hhigh := hexValue_hexDigit (b.toNat / 16) (by omega)
  have hlow := hexValue_hexDigit (b.toNat % 16) (by omega)
  have hb : UInt8.ofNat (16 * (b.toNat / 16) + b.toNat % 16) = b := by
    rw [Nat.div_add_mod, UInt8.ofNat_toNat]
  have hfirst : (DecodeState.percent pending).step (hexDigit (b.toNat / 16)) =
      some (.digit pending (b.toNat / 16), []) := congrArg (Option.map _) hhigh
  have hsecond : (DecodeState.digit pending (b.toNat / 16)).step (hexDigit (b.toNat % 16)) =
      decodeByte pending b := by
    unfold DecodeState.step
    dsimp only
    rw [hlow, Option.bind_some, hb]
  rw [decodeFrom_silent hfirst, decodeFrom_cons, hsecond]

theorem decodeFrom_first (b : UInt8) : decodeFrom .text (escapeByte b ++ text) =
    (decodeByte none b).bind fun next =>
      (decodeFrom next.1 text).map fun rest => next.2 ++ rest := by
  rw [← decodeFrom_escapeByte]
  exact decodeFrom_silent rfl _

theorem decodeFrom_more (text : List Char) (bytes : List UInt8) (left : Nat) (b : UInt8) :
    decodeFrom (.more bytes left) (escapeByte b ++ text) =
      (decodeByte (some (bytes, left)) b).bind fun next =>
        (decodeFrom next.1 text).map fun rest => next.2 ++ rest := by
  rw [← decodeFrom_escapeByte]
  exact decodeFrom_silent rfl _

theorem utf8Width_ofNat {n : Nat} (h : n < 0x100) : utf8Width (UInt8.ofNat n) =
    if n < 0x80 then some 1
    else if n < 0xC0 then none
    else if n < 0xE0 then some 2
    else if n < 0xF0 then some 3
    else if n < 0xF8 then some 4
    else none := by
  unfold utf8Width
  rw [UInt8.toNat_ofNat_of_lt' h]

theorem isContinuation_ofNat {n : Nat} (h : n < 0x40) :
    isContinuation (UInt8.ofNat (n + 0x80)) = true := by
  unfold isContinuation
  rw [UInt8.toNat_ofNat_of_lt' (by omega : n + 0x80 < 2 ^ 8), Bool.and_eq_true,
    decide_eq_true_eq, decide_eq_true_eq]
  omega

/-- The bytes of a character: the first tells how many there are, the others continue it. -/
theorem utf8EncodeChar_bytes (c : Char) : ∃ b bs, String.utf8EncodeChar c = b :: bs ∧
    utf8Width b = some (bs.length + 1) ∧ (∀ x ∈ bs, isContinuation x = true) ∧
    (bs = [] → Char.ofNat b.toNat = c) := by
  have hvalid : c.val.toNat ≤ 0x10ffff := by
    have hc := c.valid
    simp only [UInt32.isValidChar, Nat.isValidChar] at hc
    omega
  have hall : ∀ n, isContinuation (UInt8.ofNat (n % 0x40 + 0x80)) = true := fun n =>
    isContinuation_ofNat (Nat.mod_lt _ (by omega))
  unfold String.utf8EncodeChar
  dsimp only
  split
  · rename_i h
    refine ⟨_, _, rfl, ?_, nofun, fun _ => ?_⟩
    · rw [utf8Width_ofNat (by omega), if_pos (by omega)]
      rfl
    · rw [UInt8.toNat_ofNat_of_lt' (by omega : c.val.toNat < 2 ^ 8)]
      exact Char.ofNat_toNat c
  · split
    · refine ⟨_, _, rfl, ?_, fun x hx => ?_, nofun⟩
      · rw [utf8Width_ofNat (by omega), if_neg (by omega), if_neg (by omega), if_pos (by omega)]
        rfl
      · rw [List.mem_singleton.mp hx]
        exact hall _
    · split
      · refine ⟨_, _, rfl, ?_, fun x hx => ?_, nofun⟩
        · rw [utf8Width_ofNat (by omega), if_neg (by omega), if_neg (by omega), if_neg (by omega),
            if_pos (by omega)]
          rfl
        · simp only [List.mem_cons, List.not_mem_nil, or_false] at hx
          rcases hx with rfl | rfl
          · exact hall _
          · exact hall _
      · refine ⟨_, _, rfl, ?_, fun x hx => ?_, nofun⟩
        · rw [utf8Width_ofNat (by omega), if_neg (by omega), if_neg (by omega), if_neg (by omega),
            if_neg (by omega), if_pos (by omega)]
          rfl
        · simp only [List.mem_cons, List.not_mem_nil, or_false] at hx
          rcases hx with rfl | rfl | rfl
          · exact hall _
          · exact hall _
          · exact hall _

theorem utf8Char_encode (c : Char) : utf8Char (String.utf8EncodeChar c) = some c := by
  have h := ByteArray.utf8DecodeChar?_utf8EncodeChar_append (b := ByteArray.empty) (c := c)
  rwa [ByteArray.append_empty] at h

/-- The escapes of the bytes that continue a character. -/
theorem decodeFrom_continuation (text : List Char) (bytes : List UInt8) {bs : List UInt8} (hne : bs ≠ [])
    (hall : ∀ x ∈ bs, isContinuation x = true) :
    decodeFrom (.more bytes bs.length) (bs.flatMap escapeByte ++ text) =
      (utf8Char (bytes ++ bs)).bind fun c => (decodeFrom .text text).map fun rest => c :: rest := by
  induction bs generalizing bytes with
  | nil => exact absurd rfl hne
  | cons b bs ih =>
      rw [List.flatMap_cons, List.append_assoc, decodeFrom_more]
      unfold decodeByte
      dsimp only
      rw [if_pos (hall b List.mem_cons_self)]
      cases bs with
      | nil =>
          rw [if_pos (by simp)]
          rw [Option.bind_map]
          rfl
      | cons b' bs =>
          rw [if_neg (by simp)]
          have ih := ih (bytes ++ [b]) (List.cons_ne_nil _ _)
            fun x hx => hall x (List.mem_cons_of_mem _ hx)
          simp only [Option.bind_some, List.nil_append, Option.map_id', List.length_cons,
            Nat.add_sub_cancel, List.append_assoc, List.singleton_append] at ih ⊢
          exact ih

theorem decodeByte_single (h : utf8Width b = some 1) :
    decodeByte none b = some (.text, [Char.ofNat b.toNat]) := by
  unfold decodeByte
  simp only [h]

theorem decodeByte_several {n : Nat} (h : utf8Width b = some (n + 2)) :
    decodeByte none b = some (.more [b] (n + 1), []) := by
  unfold decodeByte
  simp only [h]
  rfl

/-- **An escaped character decodes to itself.** -/
theorem decodeFrom_escapeChar (c : Char) : decodeFrom .text (escapeChar c ++ text) =
    (decodeFrom .text text).map fun rest => c :: rest := by
  obtain ⟨b, bs, hbytes, hwidth, hall, hone⟩ := utf8EncodeChar_bytes c
  have hchar := utf8Char_encode c
  unfold escapeChar
  rw [hbytes] at hchar ⊢
  rw [List.flatMap_cons, List.append_assoc, decodeFrom_first]
  cases bs with
  | nil =>
      rw [decodeByte_single hwidth, hone rfl]
      rfl
  | cons b' bs =>
      rw [decodeByte_several hwidth]
      have hmore := decodeFrom_continuation text [b] (List.cons_ne_nil b' bs) hall
      rw [List.singleton_append, hchar] at hmore
      simp only [Option.bind_some, List.nil_append, Option.map_id']
      exact hmore

end Decode

/-! ## 4. A text with some characters escaped -/

section Escapes

variable {text text' : List Char}

/-- A character that is neither a letter nor a digit, nor one that a URL or an escape is cut at. -/
def Escapable (c : Char) : Prop :=
  c.isAlphanum = false ∧ c ≠ '%' ∧ c ≠ '/' ∧ c ≠ '?' ∧ c ≠ '#'

/-- The second text is the first one with some characters escaped. -/
inductive Escapes : List Char → List Char → Prop where
  | nil : Escapes [] []
  | same (c : Char) {text text' : List Char} (h : Escapes text text') :
      Escapes (c :: text) (c :: text')
  | escaped (c : Char) {text text' : List Char} (hc : Escapable c) (h : Escapes text text') :
      Escapes (c :: text) (escapeChar c ++ text')

theorem Escapes.append {u u' : List Char} (h : Escapes text text') (hu : Escapes u u') :
    Escapes (text ++ u) (text' ++ u') := by
  induction h with
  | nil => exact hu
  | same c h ih => exact .same c ih
  | escaped c hc h ih =>
      rw [List.append_assoc]
      exact .escaped c hc ih

theorem Escapes.refl (text : List Char) : Escapes text text := by
  induction text with
  | nil => exact .nil
  | cons c text ih => exact .same c ih

theorem escapes_percentEncode {set : Char → Bool}
    (h : ∀ c ∈ text, set c = true → Escapable c) : Escapes text (percentEncode set text) := by
  induction text with
  | nil => exact .nil
  | cons c text ih =>
      have ih := ih fun c hc => h c (List.mem_cons_of_mem _ hc)
      unfold percentEncode
      rw [List.flatMap_cons]
      split
      · rename_i hset
        exact .escaped c (h c List.mem_cons_self hset) ih
      · exact .same c ih

theorem hexValue_none {c : Char} (h : c.isAlphanum = false) : hexValue c = none := by
  unfold Char.isAlphanum Char.isAlpha Char.isUpper Char.isLower Char.isDigit at h
  unfold hexValue
  simp only [Bool.or_eq_false_iff, Bool.and_eq_false_iff, decide_eq_false_iff_not, ge_iff_le] at h
  obtain ⟨⟨hupper, hlower⟩, hdigit⟩ := h
  simp only [Char.le_def, UInt32.le_iff_toNat_le] at hupper hlower hdigit ⊢
  rw [if_neg, if_neg, if_neg]
  · rintro ⟨h₁, h₂⟩
    revert h₁ h₂
    simp at hlower ⊢
    omega
  · rintro ⟨h₁, h₂⟩
    revert h₁ h₂
    simp at hupper ⊢
    omega
  · rintro ⟨h₁, h₂⟩
    revert h₁ h₂
    simp at hdigit ⊢
    omega

theorem escapeChar_percent (c : Char) : ∃ (b : UInt8) (bs : List UInt8),
    utf8Width b = some (bs.length + 1) ∧ escapeChar c = '%' :: hexDigit (b.toNat / 16) :: hexDigit (b.toNat % 16) ::
      bs.flatMap escapeByte := by
  obtain ⟨b, bs, hbytes, hwidth, -⟩ := utf8EncodeChar_bytes c
  refine ⟨b, bs, hwidth, ?_⟩
  unfold escapeChar
  rw [hbytes]
  rfl

/-- A byte that begins a character continues none. -/
theorem isContinuation_first {b : UInt8} {n : Nat} (h : utf8Width b = some n) :
    isContinuation b = false := by
  unfold utf8Width at h
  unfold isContinuation
  rw [Bool.and_eq_false_iff, decide_eq_false_iff_not, decide_eq_false_iff_not]
  split at h
  · omega
  · split at h
    · cases h
    · omega

/-- **Escaping does not change what a text decodes to.** -/
theorem Escapes.decodeFrom (h : Escapes text text') (state : DecodeState) :
    Stowplan.decodeFrom state text' = Stowplan.decodeFrom state text := by
  induction h generalizing state with
  | nil => rfl
  | same c h ih => cases state <;> simp only [Stowplan.decodeFrom, ih]
  | @escaped c text text' hc h ih =>
      obtain ⟨halnum, hpercent, -⟩ := hc
      have hhex := hexValue_none halnum
      have hsign : hexValue '%' = none := by decide
      obtain ⟨b, bs, hwidth, hescape⟩ := escapeChar_percent c
      cases state with
      | text =>
          rw [decodeFrom_escapeChar, ih]
          simp [Stowplan.decodeFrom, DecodeState.step, hpercent]
      | percent pending =>
          -- a percent sign is no digit, nor is the character
          rw [hescape]
          simp [Stowplan.decodeFrom, DecodeState.step, hhex, hsign]
      | digit pending high =>
          rw [hescape]
          simp [Stowplan.decodeFrom, DecodeState.step, hhex, hsign]
      | more bytes left =>
          -- the escape begins a character, where one has to go on
          have hfirst := isContinuation_first hwidth
          have hbyte : decodeByte (some (bytes, left)) b = none := by
            unfold decodeByte
            dsimp only
            rw [hfirst, if_neg Bool.false_ne_true]
          rw [hescape]
          have hmore := decodeFrom_more (bs.flatMap escapeByte ++ text') bytes left b
          rw [hbyte] at hmore
          refine hmore.trans ?_
          simp [Stowplan.decodeFrom, DecodeState.step, hpercent]

/-- **A text and the same text escaped have the same decodings**, from the first on. -/
theorem Escapes.decodings (h : Escapes text text') (k : Nat) :
    Stowplan.decodings (k + 1) text' = Stowplan.decodings (k + 1) text := by
  unfold Stowplan.decodings decodeURIComponent
  rw [h.decodeFrom]

end Escapes

/-! ## 5. Decoding shortens -/

section Shorter

/-- The units of UTF-16 that a text takes. -/
def units (text : List Char) : Nat := (text.map fun c => if c.val < 0x10000 then 1 else 2).sum

/-- What the decoder has read and not yet written. -/
def DecodeState.held : DecodeState → Nat
  | .text => 0
  | .percent none => 1
  | .percent (some (bytes, _)) => 1 + 3 * max 1 bytes.length
  | .digit none _ => 2
  | .digit (some (bytes, _)) _ => 2 + 3 * max 1 bytes.length
  | .more bytes _ => 3 * max 1 bytes.length

theorem units_cons (c : Char) (text : List Char) :
    units (c :: text) = (if c.val < 0x10000 then 1 else 2) + units text := by
  unfold units
  rw [List.map_cons, List.sum_cons]

theorem units_cons_pos (c : Char) (text : List Char) : 1 + units text ≤ units (c :: text) := by
  rw [units_cons]
  split <;> omega

theorem units_append (text text' : List Char) :
    units (text ++ text') = units text + units text' := by
  unfold units
  rw [List.map_append, List.sum_append]

theorem units_byte : ∀ n < 256, units [Char.ofNat n] = 1 := by decide +kernel

/-- What the decoder writes after an escape takes fewer units than the escape. -/
theorem decodeByte_held {pending : Option (List UInt8 × Nat)} {b : UInt8} (high : Nat)
    {next : DecodeState × List Char} (h : decodeByte pending b = some next) :
    (next.1 = .text ∧ units next.2 + 2 ≤ (DecodeState.digit pending high).held + 1) ∨
      (next.1 ≠ .text ∧ next.2 = [] ∧ next.1.held ≤ (DecodeState.digit pending high).held + 1) := by
  unfold decodeByte at h
  cases pending with
  | none =>
      dsimp only at h
      split at h
      · cases h
      · cases h
        refine .inl ⟨rfl, ?_⟩
        dsimp only
        rw [units_byte _ b.toNat_lt]
        exact Nat.le_refl _
      · cases h
        exact .inr ⟨nofun, rfl, Nat.le_refl _⟩
  | some p =>
      obtain ⟨bytes, left⟩ := p
      dsimp only at h
      split at h
      · split at h
        · obtain ⟨c, -, rfl⟩ := Option.map_eq_some_iff.mp h
          have hunits : units [c] ≤ 2 := by
            rw [units_cons]
            show _ + 0 ≤ 2
            split <;> omega
          refine .inl ⟨rfl, ?_⟩
          dsimp only [DecodeState.held]
          omega
        · cases h
          refine .inr ⟨nofun, rfl, ?_⟩
          dsimp only [DecodeState.held]
          rw [List.length_append, List.length_singleton]
          omega
      · cases h

/-- A decoding is the text itself, or it is shorter. -/
theorem decodeFrom_shorter {state : DecodeState} {text out : List Char}
    (h : decodeFrom state text = some out) :
    (state = .text ∧ out = text) ∨ units out + 2 ≤ units text + state.held := by
  induction text generalizing state out with
  | nil =>
      cases state with
      | text =>
          cases h
          exact .inl ⟨rfl, rfl⟩
      | percent | digit | more => cases h
  | cons c text ih =>
      have hpos := units_cons_pos c text
      simp only [decodeFrom, Option.bind_eq_some_iff, Option.map_eq_some_iff] at h
      obtain ⟨next, hnext, rest, hrest, rfl⟩ := h
      have ih := ih hrest
      cases state with
      | text =>
          simp only [DecodeState.step] at hnext
          split at hnext
          · cases hnext
            refine .inr ?_
            rcases ih with ⟨hstate, -⟩ | ih
            · cases hstate
            · dsimp only [DecodeState.held, List.nil_append] at ih ⊢
              omega
          · cases hnext
            rcases ih with ⟨-, rfl⟩ | ih
            · exact .inl ⟨rfl, rfl⟩
            · refine .inr ?_
              rw [List.singleton_append, units_cons, units_cons]
              dsimp only [DecodeState.held] at ih ⊢
              omega
      | percent pending =>
          obtain ⟨high, -, rfl⟩ := Option.map_eq_some_iff.mp hnext
          refine .inr ?_
          rcases ih with ⟨hstate, -⟩ | ih
          · cases hstate
          · cases pending <;>
            · dsimp only [DecodeState.held, List.nil_append] at ih ⊢
              omega
      | digit pending high =>
          obtain ⟨low, -, hbyte⟩ := Option.bind_eq_some_iff.mp hnext
          refine .inr ?_
          rw [units_append]
          rcases decodeByte_held high hbyte with ⟨hstate, hheld⟩ | ⟨hstate, hnone, hheld⟩
          · rcases ih with ⟨-, rfl⟩ | ih
            · omega
            · rw [hstate] at ih
              dsimp only [DecodeState.held] at ih
              omega
          · rw [hnone]
            rcases ih with ⟨htext, rfl⟩ | ih
            · exact absurd htext hstate
            · show 0 + units rest + 2 ≤ _
              omega
      | more bytes left =>
          simp only [DecodeState.step] at hnext
          split at hnext
          · cases hnext
            refine .inr ?_
            rcases ih with ⟨hstate, -⟩ | ih
            · cases hstate
            · dsimp only [DecodeState.held, List.nil_append] at ih ⊢
              omega
          · cases hnext

/-- **A decoding that changes a text makes it shorter**, by two units at least. -/
theorem decodeURIComponent_shorter {text out : List Char} (h : decodeURIComponent text = some out) :
    out = text ∨ units out + 2 ≤ units text :=
  (decodeFrom_shorter h).imp_left And.right

end Shorter

/-! ## 6. `encodeURIComponent` -/

section Encode

variable {text : List Char}

/-- A character that `encodeURIComponent` leaves as it is. -/
def unreserved (c : Char) : Bool :=
  c.isAlphanum || ['-', '_', '.', '!', '~', '*', '\'', '(', ')'].contains c

/-- `encodeURIComponent(text)`. -/
def encodeURIComponent (text : List Char) : List Char := percentEncode (fun c => !unreserved c) text

theorem decodeFrom_plain {c : Char} (h : c ≠ '%') (text : List Char) :
    decodeFrom .text (c :: text) = (decodeFrom .text text).map fun rest => c :: rest := by
  have hstep : DecodeState.text.step c = some (.text, [c]) := if_neg h
  exact decodeFrom_step hstep text

theorem encodeURIComponent_cons (c : Char) (text : List Char) : encodeURIComponent (c :: text) =
    (if unreserved c then [c] else escapeChar c) ++ encodeURIComponent text := by
  unfold encodeURIComponent percentEncode
  rw [List.flatMap_cons]
  congr 1
  cases hc : unreserved c with
  | true => simp [hc]
  | false => simp [hc]

/-- **What is written is read back**, with whatever follows it. -/
theorem decodeFrom_encodeURIComponent (text rest : List Char) :
    decodeFrom .text (encodeURIComponent text ++ rest) =
      (decodeFrom .text rest).map fun out => text ++ out := by
  induction text with
  | nil => exact Option.map_id'.symm
  | cons c text ih =>
      rw [encodeURIComponent_cons, List.append_assoc]
      by_cases hc : unreserved c = true
      · rw [if_pos hc, List.singleton_append, decodeFrom_plain (by rintro rfl; cases hc), ih,
          Option.map_map]
        rfl
      · rw [if_neg hc, decodeFrom_escapeChar, ih, Option.map_map]
        rfl

theorem encodeURIComponent_decode (text : List Char) :
    decodeURIComponent (encodeURIComponent text) = some text := by
  have h := decodeFrom_encodeURIComponent text []
  rw [List.append_nil] at h
  refine h.trans ?_
  show some (text ++ []) = some text
  rw [List.append_nil]

end Encode

end Stowplan
