/-
  File:      Stowplan/Js/Base64.lean
  Subject:   BYTES AS TEXT: `btoa`, `atob` and the two text coders.

  Three bytes make four signs of six bits each, the last ones padded with zeros and equals signs.
  `atob` drops blanks and padding and forgets what is left of the bits. The text decoder drops a byte
  order mark and takes nothing that is not UTF-8.

  * `sextets`, `bytesOfSextets`: the bits of bytes, six at a time, and back;
  * `atob_padded`: signs are read back, however many equals signs complete them;
  * `decodeUtf8_encodeUtf8`: a text is read back, unless it begins with the mark.
-/
import Mathlib.Data.List.Basic
import Mathlib.Tactic.IntervalCases

namespace Stowplan

/-! ## 1. Base64 -/

/-- The sign of six bits. -/
def base64Char (n : Nat) : Char :=
  if n < 26 then Char.ofNat (65 + n)
  else if n < 52 then Char.ofNat (71 + n)
  else if n < 62 then Char.ofNat (n - 4)
  else if n = 62 then '+'
  else '/'

/-- The six bits of a character of the alphabet. -/
def base64Value (c : Char) : Option Nat :=
  if 'A' ≤ c ∧ c ≤ 'Z' then some (c.toNat - 65)
  else if 'a' ≤ c ∧ c ≤ 'z' then some (c.toNat - 71)
  else if '0' ≤ c ∧ c ≤ '9' then some (c.toNat + 4)
  else if c = '+' then some 62
  else if c = '/' then some 63
  else none

/-- The bits of bytes, six at a time. -/
def sextets : List UInt8 → List Nat
  | [] => []
  | [a] => [a.toNat / 4, a.toNat % 4 * 16]
  | [a, b] => [a.toNat / 4, a.toNat % 4 * 16 + b.toNat / 16, b.toNat % 16 * 4]
  | a :: b :: c :: rest =>
    (a.toNat / 4) :: (a.toNat % 4 * 16 + b.toNat / 16) :: (b.toNat % 16 * 4 + c.toNat / 64) ::
      (c.toNat % 64) :: sextets rest

/-- The bytes of bits, those left over forgotten; six bits alone are none. -/
def bytesOfSextets : List Nat → Option (List UInt8)
  | [] => some []
  | [_] => none
  | [p, q] => some [UInt8.ofNat (p * 4 + q / 16)]
  | [p, q, r] => some [UInt8.ofNat (p * 4 + q / 16), UInt8.ofNat (q % 16 * 16 + r / 4)]
  | p :: q :: r :: s :: rest => (bytesOfSextets rest).map fun bytes =>
      UInt8.ofNat (p * 4 + q / 16) :: UInt8.ofNat (q % 16 * 16 + r / 4) ::
        UInt8.ofNat (r % 4 * 64 + s) :: bytes

/-- `btoa(binary)`, of a string whose characters are bytes. -/
def btoa (bytes : List UInt8) : List Char :=
  (sextets bytes).map base64Char ++ List.replicate ((3 - bytes.length % 3) % 3) '='

/-- Tab, newline, form feed, carriage return and the space. -/
def isAsciiBlank (c : Char) : Bool := [0x9, 0xA, 0xC, 0xD, 0x20].contains c.toNat

/-- One or two equals signs at the end are padding. -/
def withoutPadding (text : List Char) : List Char :=
  match text.reverse with
  | '=' :: '=' :: rest => rest.reverse
  | '=' :: rest => rest.reverse
  | _ => text

/-- `atob(text)`, which throws where there is nothing. -/
def atob (text : List Char) : Option (List UInt8) :=
  let signs := text.filter fun c => !isAsciiBlank c
  let signs := if signs.length % 4 = 0 then withoutPadding signs else signs
  (signs.mapM base64Value).bind bytesOfSextets

section Base64

theorem sextets_lt (bytes : List UInt8) : ∀ n ∈ sextets bytes, n < 64 := by
  fun_induction sextets bytes with
  | case1 => exact nofun
  | case2 a =>
      have ha := a.toNat_lt
      intro n hn
      simp only [List.mem_cons, List.not_mem_nil, or_false] at hn
      omega
  | case3 a b =>
      have ha := a.toNat_lt
      have hb := b.toNat_lt
      intro n hn
      simp only [List.mem_cons, List.not_mem_nil, or_false] at hn
      omega
  | case4 a b c rest ih =>
      have ha := a.toNat_lt
      have hb := b.toNat_lt
      have hc := c.toNat_lt
      intro n hn
      rcases List.mem_cons.mp hn with rfl | hn
      · omega
      · rcases List.mem_cons.mp hn with rfl | hn
        · omega
        · rcases List.mem_cons.mp hn with rfl | hn
          · omega
          · rcases List.mem_cons.mp hn with rfl | hn
            · omega
            · exact ih n hn

/-- **The bits of bytes are their bits.** -/
theorem bytesOfSextets_sextets (bytes : List UInt8) :
    bytesOfSextets (sextets bytes) = some bytes := by
  have hbyte : ∀ (a : UInt8) (n : Nat), n = a.toNat → UInt8.ofNat n = a := by
    rintro a n rfl
    exact UInt8.ofNat_toNat
  fun_induction sextets bytes with
  | case1 => rfl
  | case2 a =>
      have ha := a.toNat_lt
      unfold bytesOfSextets
      rw [hbyte a _ (by omega)]
  | case3 a b =>
      have ha := a.toNat_lt
      have hb := b.toNat_lt
      unfold bytesOfSextets
      rw [hbyte a _ (by omega), hbyte b _ (by omega)]
  | case4 a b c rest ih =>
      have ha := a.toNat_lt
      have hb := b.toNat_lt
      have hc := c.toNat_lt
      unfold bytesOfSextets
      rw [ih, hbyte a _ (by omega), hbyte b _ (by omega), hbyte c _ (by omega)]
      rfl

theorem length_sextets (bytes : List UInt8) :
    (sextets bytes).length = (4 * bytes.length + 2) / 3 := by
  fun_induction sextets bytes with
  | case1 => rfl
  | case2 a => simp
  | case3 a b => simp
  | case4 a b c rest ih =>
      simp only [List.length_cons, ih]
      omega

/-- What holds of the sign of every six bits. -/
theorem base64Char_all {P : Char → Nat → Prop} [∀ c n, Decidable (P c n)]
    (h : (List.range 64).all (fun n => decide (P (base64Char n) n)) = true) {n : Nat}
    (hn : n < 64) : P (base64Char n) n :=
  of_decide_eq_true (List.all_eq_true.mp h n (List.mem_range.mpr hn))

theorem mapM_base64Value {ns : List Nat} (h : ∀ n ∈ ns, n < 64) :
    (ns.map base64Char).mapM base64Value = some ns := by
  induction ns with
  | nil => rfl
  | cons n ns ih =>
      have hvalue : base64Value (base64Char n) = some n :=
        base64Char_all (P := fun c n => base64Value c = some n) (by decide) (h n List.mem_cons_self)
      rw [List.map_cons, List.mapM_cons, hvalue, ih fun m hm => h m (List.mem_cons_of_mem _ hm)]
      rfl

/-- Padding is what is dropped. -/
theorem withoutPadding_append {signs : List Char} (h : ∀ c ∈ signs, c ≠ '=') {k : Nat} (hk : k ≤ 2) :
    withoutPadding (signs ++ List.replicate k '=') = signs := by
  unfold withoutPadding
  rw [List.reverse_append, List.reverse_replicate]
  interval_cases k
  · cases hlast : signs.reverse with
    | nil =>
        show signs ++ [] = signs
        exact List.append_nil signs
    | cons c rest =>
        have hc : c ≠ '=' := h c (List.mem_reverse.mp (hlast ▸ List.mem_cons_self))
        show (match c :: rest with
          | '=' :: '=' :: rest => rest.reverse
          | '=' :: rest => rest.reverse
          | _ => signs ++ []) = signs
        split
        · rename_i heq
          exact absurd (List.cons.inj heq).1 hc
        · rename_i heq
          exact absurd (List.cons.inj heq).1 hc
        · exact List.append_nil signs
  · cases hlast : signs.reverse with
    | nil =>
        rw [List.reverse_eq_nil_iff.mp hlast]
        rfl
    | cons c rest =>
        have hc : c ≠ '=' := h c (List.mem_reverse.mp (hlast ▸ List.mem_cons_self))
        have hsigns : signs = (c :: rest).reverse := by rw [← hlast, List.reverse_reverse]
        show (match '=' :: c :: rest with
          | '=' :: '=' :: rest => rest.reverse
          | '=' :: rest => rest.reverse
          | _ => signs ++ List.replicate 1 '=') = signs
        split
        · rename_i heq
          exact absurd (List.cons.inj (List.cons.inj heq).2).1 hc
        · rename_i heq
          rw [hsigns, (List.cons.inj heq).2]
        · rename_i hother
          exact absurd rfl (hother _)
  · exact List.reverse_reverse signs

/-- **Signs are read back**, however many equals signs complete them to fours. -/
theorem atob_padded (bytes : List UInt8) :
    atob ((sextets bytes).map base64Char ++
      List.replicate ((4 - (sextets bytes).length % 4) % 4) '=') = some bytes := by
  have hlt := sextets_lt bytes
  have hlength := length_sextets bytes
  have hplain : ∀ c ∈ (sextets bytes).map base64Char, isAsciiBlank c = false ∧ c ≠ '=' := by
    intro c hc
    obtain ⟨n, hn, rfl⟩ := List.mem_map.mp hc
    exact base64Char_all (P := fun c _ => isAsciiBlank c = false ∧ c ≠ '=') (by decide) (hlt n hn)
  generalize hk : (4 - (sextets bytes).length % 4) % 4 = k
  have hkeep : ((sextets bytes).map base64Char ++ List.replicate k '=').filter
      (fun c => !isAsciiBlank c) = (sextets bytes).map base64Char ++ List.replicate k '=' := by
    refine List.filter_eq_self.mpr fun c hc => ?_
    rcases List.mem_append.mp hc with hc | hc
    · rw [(hplain c hc).1]
      rfl
    · rw [List.eq_of_mem_replicate hc]
      decide
  unfold atob
  dsimp only
  rw [hkeep, if_pos (by
    rw [List.length_append, List.length_map, List.length_replicate]
    omega), withoutPadding_append (fun c hc => (hplain c hc).2) (by omega), mapM_base64Value hlt]
  exact bytesOfSextets_sextets bytes

end Base64

/-! ## 2. UTF-8 -/

/-- `new TextEncoder().encode(text)`. -/
def encodeUtf8 (text : List Char) : List UInt8 := text.flatMap String.utf8EncodeChar

/-- The byte order mark is dropped. -/
def withoutMark : List UInt8 → List UInt8
  | 0xEF :: 0xBB :: 0xBF :: rest => rest
  | bytes => bytes

/-- `new TextDecoder("utf-8", { fatal: true }).decode(bytes)`, which throws where there is
    nothing. -/
def decodeUtf8 (bytes : List UInt8) : Option (List Char) :=
  (withoutMark bytes).toByteArray.utf8Decode?.map Array.toList

/-- **A text that begins with a character of ASCII is read back.** -/
theorem decodeUtf8_encodeUtf8 {c : Char} (h : c.toNat < 128) (text : List Char) :
    decodeUtf8 (encodeUtf8 (c :: text)) = some (c :: text) := by
  have hfirst : String.utf8EncodeChar c = [UInt8.ofNat c.toNat] := by
    have hlow : c.val.toNat ≤ 0x7f := Nat.le_of_lt_succ h
    unfold String.utf8EncodeChar
    dsimp only
    rw [if_pos hlow]
    rfl
  have hmark : withoutMark (encodeUtf8 (c :: text)) = encodeUtf8 (c :: text) := by
    show withoutMark (String.utf8EncodeChar c ++ encodeUtf8 text) = String.utf8EncodeChar c ++ _
    rw [hfirst]
    unfold withoutMark
    split
    · rename_i heq
      have hbyte := congrArg UInt8.toNat (List.cons.inj heq).1
      rw [UInt8.toNat_ofNat_of_lt' (by omega : c.toNat < 2 ^ 8)] at hbyte
      rw [hbyte] at h
      exact absurd h (by decide)
    · rfl
  unfold decodeUtf8
  rw [hmark]
  show ((c :: text).utf8Encode.utf8Decode?).map Array.toList = _
  rw [List.utf8Decode?_utf8Encode]
  rfl

end Stowplan
