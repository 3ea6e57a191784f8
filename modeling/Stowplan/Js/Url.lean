/-
  File:      Stowplan/Js/Url.lean
  Subject:   HOW A BROWSER READS A PATH: the URL parser, for references that begin with a slash.

  `new URL(input, base)` drops blanks at the ends and tabs and newlines anywhere, takes a backslash
  for a slash, resolves dot segments and escapes what a URL may not hold. Two slashes at the
  beginning name an authority; else the host is that of the base. Which hosts there are is left to
  `hostParser`, the host parser of the standard.

  * `parseRooted`: the parser;
  * `Reference.shown`: the path, query and fragment as they were read, nothing escaped;
  * `Url.text_escapes`: what the URL says is that text with some characters escaped;
  * `parseRooted_slashed`: segments of plain characters are read as they are, their dots resolved.
-/
import Stowplan.Js.Escape
import Mathlib.Data.List.Infix
import Mathlib.Data.List.TakeWhile

namespace Stowplan

/-! ## 1. References -/

/-- The schemes an application URL may have. -/
inductive Scheme where
  | http | https
  deriving DecidableEq

/-- The port a URL of the scheme leaves out. -/
def Scheme.defaultPort : Scheme → Nat
  | .http => 80
  | .https => 443

/-- `url.origin`. -/
structure Origin where
  scheme : Scheme
  host : String
  /-- `none` for the default port of the scheme. -/
  port : Option Nat
  deriving DecidableEq

/-- C0 controls and the space. -/
def isControlOrSpace (c : Char) : Bool := decide (c.val ≤ 0x20)

/-- A character that the URL parser drops wherever it stands. -/
def isTabOrNewline (c : Char) : Bool := c == '\t' || c == '\n' || c == '\r'

/-- The input without blanks at its ends, tabs and newlines. -/
def cleaned (input : List Char) : List Char :=
  ((((input.dropWhile isControlOrSpace).reverse).dropWhile isControlOrSpace).reverse).filter
    fun c => !isTabOrNewline c

/-- A backslash is a slash, where the scheme is special. -/
def isSlash (c : Char) : Bool := c == '/' || c == '\\'

/-- A character behind which the path is over. -/
def endsPath (c : Char) : Bool := c == '?' || c == '#'

/-- A reference, cut into its parts. -/
structure Reference where
  authority : Option (List Char)
  segments : List (List Char)
  query : Option (List Char)
  fragment : Option (List Char)

/-- The text after the first character, where this is `c`. -/
def textAfter (c : Char) : List Char → Option (List Char)
  | [] => none
  | c' :: rest => if c' = c then some rest else none

/-- The pieces between slashes. -/
def splitSlashes : List Char → List (List Char)
  | [] => [[]]
  | c :: rest =>
    if isSlash c then [] :: splitSlashes rest
    else match splitSlashes rest with
      | [] => [[c]]
      | segment :: segments => (c :: segment) :: segments

/-- What follows an authority, or the first slash where there is none. -/
def readRest (authority : Option (List Char)) (text : List Char) : Reference :=
  let path := text.takeWhile fun c => !endsPath c
  let rest := text.dropWhile fun c => !endsPath c
  { authority
    segments := splitSlashes path
    query := (textAfter '?' rest).map fun query => query.takeWhile fun c => c != '#'
    fragment := textAfter '#' (rest.dropWhile fun c => c != '#') }

/-- What follows the first slash. Another one begins an authority, and more are skipped. -/
def readReference (text : List Char) : Reference :=
  match text with
  | [] => readRest none []
  | c :: rest =>
    if isSlash c then
      let text := rest.dropWhile isSlash
      let authority := text.takeWhile fun c => !isSlash c && !endsPath c
      match text.dropWhile fun c => !isSlash c && !endsPath c with
      | [] => readRest (some authority) []
      | c :: rest => readRest (some authority) (if isSlash c then rest else c :: rest)
    else readRest none (c :: rest)

/-! ## 2. Authorities -/

/-- What follows the credentials. -/
def hostAndPort (authority : List Char) : List Char :=
  (authority.reverse.takeWhile fun c => c != '@').reverse

/-- The host, and the port after the first colon that stands in no brackets. -/
def splitPort (inside : Bool) : List Char → List Char × Option (List Char)
  | [] => ([], none)
  | c :: rest =>
    if c = ':' && !inside then ([], some rest)
    else
      let inside := if c = '[' then true else if c = ']' then false else inside
      let (host, port) := splitPort inside rest
      (c :: host, port)

/-- The port that digits name: none is no port, and the default one neither. -/
def readPort (scheme : Scheme) (digits : List Char) : Option (Option Nat) :=
  if digits.all Char.isDigit then
    if digits.isEmpty then some none
    else
      let port := digits.foldl (fun n c => 10 * n + (c.toNat - 48)) 0
      if 65535 < port then none
      else if port = scheme.defaultPort then some none
      else some (some port)
  else none

section Parser

variable (hostParser : List Char → Option String)

/-- The host and the port of an authority. -/
def parseAuthority (scheme : Scheme) (authority : List Char) : Option (String × Option Nat) :=
  let (host, port) := splitPort false (hostAndPort authority)
  if host.isEmpty then none
  else
    (hostParser host).bind fun host =>
      (readPort scheme (port.getD [])).map fun port => (host, port)

/-! ## 3. Paths -/

/-- A dot, as it is or escaped. -/
def readDot : List Char → Option (List Char)
  | '.' :: rest => some rest
  | '%' :: '2' :: 'e' :: rest => some rest
  | '%' :: '2' :: 'E' :: rest => some rest
  | _ => none

/-- The segment `.`, escaped or not. -/
def isSingleDot (segment : List Char) : Bool := readDot segment == some []

/-- The segment `..`, escaped or not. -/
def isDoubleDot (segment : List Char) : Bool := (readDot segment).bind readDot == some []

/-- The segments with the dots resolved. A dot at the end leaves an empty segment. -/
def resolveDots : List (List Char) → List (List Char) → List (List Char)
  | kept, [] => kept
  | kept, [segment] =>
    if isDoubleDot segment then kept.dropLast ++ [[]]
    else if isSingleDot segment then kept ++ [[]]
    else kept ++ [segment]
  | kept, segment :: next :: rest =>
    resolveDots (if isDoubleDot segment then kept.dropLast
      else if isSingleDot segment then kept else kept ++ [segment]) (next :: rest)

/-- The controls, and everything outside ASCII. -/
def isControl (c : Char) : Bool := decide (c.val ≤ 0x1F) || decide (0x7E < c.val)

/-- The characters escaped in a fragment. -/
def fragmentSet (c : Char) : Bool := isControl c || [' ', '"', '<', '>', '`'].contains c

/-- The characters escaped in a query, where the scheme is special. -/
def querySet (c : Char) : Bool := isControl c || [' ', '"', '#', '<', '>', '\''].contains c

/-- The characters escaped in a path. -/
def pathSet (c : Char) : Bool :=
  isControl c || [' ', '"', '#', '<', '>', '?', '^', '`', '{', '}'].contains c

/-- A URL of a special scheme, as far as a page can tell. -/
structure Url where
  origin : Origin
  path : List (List Char)
  query : Option (List Char)
  fragment : Option (List Char)

end Parser

/-- The reference an input makes, past its first slash. -/
def referenceOf (input : List Char) : Reference := readReference (cleaned input).tail

section Parser

variable (hostParser : List Char → Option String)

/-- The host and the port of a reference. -/
def Reference.hostPort (base : Origin) (reference : Reference) : Option (String × Option Nat) :=
  match reference.authority with
  | none => some (base.host, base.port)
  | some authority => parseAuthority hostParser base.scheme authority

/-- `new URL(input, base)`, for an input that begins with a slash. The dot segments are told by
    what escaping leaves as it is. -/
def parseRooted (base : Origin) (input : List Char) : Option Url :=
  let reference := referenceOf input
  (reference.hostPort hostParser base).map fun (host, port) => {
    origin := ⟨base.scheme, host, port⟩
    path := (resolveDots [] reference.segments).map (percentEncode pathSet)
    query := reference.query.map (percentEncode querySet)
    fragment := reference.fragment.map (percentEncode fragmentSet) }

end Parser

/-- Segments as a path. -/
def slashed (segments : List (List Char)) : List Char := segments.flatMap fun s => '/' :: s

/-- A query or fragment after its sign; an empty one is left out. -/
def marked (sign : Char) : Option (List Char) → List Char
  | none => []
  | some [] => []
  | some text => sign :: text

/-- `url.pathname`. -/
def Url.pathname (url : Url) : List Char := slashed url.path

/-- `url.search`. -/
def Url.search (url : Url) : List Char := marked '?' url.query

/-- `url.hash`. -/
def Url.hash (url : Url) : List Char := marked '#' url.fragment

/-- `${url.pathname}${url.search}${url.hash}`. -/
def Url.text (url : Url) : List Char := url.pathname ++ url.search ++ url.hash

/-- What a reference says after its authority, nothing escaped. -/
def Reference.shown (reference : Reference) : List Char :=
  slashed (resolveDots [] reference.segments) ++ marked '?' reference.query ++
    marked '#' reference.fragment

/-! ## 4. The parts of a reference -/

section Parts

variable {text : List Char}

/-- The parts of a reference hold no separators of theirs. -/
structure Reference.Cut (reference : Reference) : Prop where
  segments : reference.segments ≠ []
  clear : ∀ s ∈ reference.segments, ∀ c ∈ s, isSlash c = false ∧ endsPath c = false
  query : ∀ q ∈ reference.query, ∀ c ∈ q, c ≠ '#'

theorem splitSlashes_ne_nil (text : List Char) : splitSlashes text ≠ [] := by
  cases text with
  | nil => exact List.cons_ne_nil _ _
  | cons c rest =>
      unfold splitSlashes
      split
      · exact List.cons_ne_nil _ _
      · split <;> exact List.cons_ne_nil _ _

theorem mem_splitSlashes {s : List Char} (h : s ∈ splitSlashes text) :
    ∀ c ∈ s, c ∈ text ∧ isSlash c = false := by
  induction text generalizing s with
  | nil =>
      rw [List.mem_singleton.mp h]
      exact nofun
  | cons c text ih =>
      unfold splitSlashes at h
      split at h
      · rcases List.mem_cons.mp h with rfl | h
        · exact nofun
        · exact fun d hd => (ih h d hd).imp_left (List.mem_cons_of_mem _)
      · rename_i hc
        have hclear : isSlash c = false := Bool.eq_false_iff.mpr hc
        split at h
        · rename_i hnil
          exact absurd hnil (splitSlashes_ne_nil _)
        · rename_i segment segments hsplit
          rcases List.mem_cons.mp h with rfl | h
          · intro d hd
            rcases List.mem_cons.mp hd with rfl | hd
            · exact ⟨List.mem_cons_self, hclear⟩
            · have hsegment : segment ∈ splitSlashes text := hsplit ▸ List.mem_cons_self
              exact (ih hsegment d hd).imp_left (List.mem_cons_of_mem _)
          · have hs : s ∈ splitSlashes text := hsplit ▸ List.mem_cons_of_mem _ h
            exact fun d hd => (ih hs d hd).imp_left (List.mem_cons_of_mem _)

theorem readRest_cut (authority : Option (List Char)) (text : List Char) :
    (readRest authority text).Cut where
  segments := splitSlashes_ne_nil _
  clear := by
    intro s hs c hc
    obtain ⟨hin, hslash⟩ := mem_splitSlashes hs c hc
    have hpath := List.mem_takeWhile_imp hin
    exact ⟨hslash, by simpa using hpath⟩
  query := by
    intro q hq c hc
    obtain ⟨query, -, rfl⟩ := Option.map_eq_some_iff.mp (Option.mem_def.mp hq)
    simpa using List.mem_takeWhile_imp hc

theorem readReference_cut (text : List Char) : (readReference text).Cut := by
  unfold readReference
  split
  · exact readRest_cut _ _
  · split
    · dsimp only
      split <;> exact readRest_cut _ _
    · exact readRest_cut _ _

theorem mem_resolveDots {kept segments : List (List Char)} {s : List Char}
    (h : s ∈ resolveDots kept segments) : s ∈ kept ∨ s ∈ segments ∨ s = [] := by
  fun_induction resolveDots kept segments with
  | case1 kept => exact .inl h
  | case2 kept segment hdots =>
      rcases List.mem_append.mp h with h | h
      · exact .inl (List.mem_of_mem_dropLast h)
      · exact .inr (.inr (List.mem_singleton.mp h))
  | case3 kept segment hdots hdot =>
      rcases List.mem_append.mp h with h | h
      · exact .inl h
      · exact .inr (.inr (List.mem_singleton.mp h))
  | case4 kept segment hdots hdot =>
      rcases List.mem_append.mp h with h | h
      · exact .inl h
      · exact .inr (.inl h)
  | case5 kept segment next rest ih =>
      rcases ih h with h | h | h
      · split at h
        · exact .inl (List.mem_of_mem_dropLast h)
        · split at h
          · exact .inl h
          · rcases List.mem_append.mp h with h | h
            · exact .inl h
            · rw [List.mem_singleton.mp h]
              exact .inr (.inl List.mem_cons_self)
      · exact .inr (.inl (List.mem_cons_of_mem _ h))
      · exact .inr (.inr h)

theorem resolveDots_ne_nil (kept : List (List Char)) {segments : List (List Char)} (h : segments ≠ []) :
    resolveDots kept segments ≠ [] := by
  fun_induction resolveDots kept segments with
  | case1 kept => exact absurd rfl h
  | case2 | case3 | case4 => simp
  | case5 kept segment next rest ih => exact ih (List.cons_ne_nil _ _)

/-- The segments that are left hold no separators either. -/
theorem Reference.Cut.resolved {reference : Reference} (h : reference.Cut) {s : List Char}
    (hs : s ∈ resolveDots [] reference.segments) :
    ∀ c ∈ s, isSlash c = false ∧ endsPath c = false := by
  rcases mem_resolveDots hs with hs | hs | rfl
  · cases hs
  · exact h.clear s hs
  · exact nofun

end Parts

/-! ## 5. What a URL says -/

section Text

theorem isControl_escapable {c : Char} (h : isControl c = true) : Escapable c := by
  have hvalue : c.toNat ≤ 31 ∨ 126 < c.toNat := by
    unfold isControl at h
    rw [Bool.or_eq_true, decide_eq_true_eq, decide_eq_true_eq] at h
    exact h.imp UInt32.le_iff_toNat_le.mp UInt32.lt_iff_toNat_lt.mp
  refine ⟨?_, ?_, ?_, ?_, ?_⟩
  · rw [Bool.eq_false_iff]
    intro halnum
    unfold Char.isAlphanum Char.isAlpha Char.isUpper Char.isLower Char.isDigit at halnum
    simp only [Bool.or_eq_true, Bool.and_eq_true, decide_eq_true_eq, ge_iff_le,
      UInt32.le_iff_toNat_le] at halnum
    simp at halnum
    omega
  all_goals
    rintro rfl
    revert hvalue
    decide

theorem querySet_escapable {c : Char} (h : querySet c = true) (hc : c ≠ '#') : Escapable c := by
  unfold querySet at h
  rcases Bool.or_eq_true_iff.mp h with h | h
  · exact isControl_escapable h
  · simp only [List.contains_iff_mem, List.mem_cons, List.not_mem_nil, or_false] at h
    rcases h with rfl | rfl | rfl | rfl | rfl | rfl
    all_goals first
      | exact absurd rfl hc
      | exact ⟨rfl, by decide, by decide, by decide, by decide⟩

theorem fragmentSet_escapable {c : Char} (h : fragmentSet c = true) : Escapable c := by
  unfold fragmentSet at h
  rcases Bool.or_eq_true_iff.mp h with h | h
  · exact isControl_escapable h
  · simp only [List.contains_iff_mem, List.mem_cons, List.not_mem_nil, or_false] at h
    rcases h with rfl | rfl | rfl | rfl | rfl
    all_goals exact ⟨rfl, by decide, by decide, by decide, by decide⟩

theorem pathSet_escapable {c : Char} (h : pathSet c = true) (hc : endsPath c = false) :
    Escapable c := by
  unfold pathSet at h
  rcases Bool.or_eq_true_iff.mp h with h | h
  · exact isControl_escapable h
  · simp only [List.contains_iff_mem, List.mem_cons, List.not_mem_nil, or_false] at h
    rcases h with rfl | rfl | rfl | rfl | rfl | rfl | rfl | rfl | rfl | rfl
    all_goals first
      | exact absurd hc (by decide)
      | exact ⟨rfl, by decide, by decide, by decide, by decide⟩

theorem escapes_slashed {segments : List (List Char)} {set : Char → Bool}
    (h : ∀ s ∈ segments, ∀ c ∈ s, set c = true → Escapable c) :
    Escapes (slashed segments) (slashed (segments.map (percentEncode set))) := by
  induction segments with
  | nil => exact .nil
  | cons s segments ih =>
      have hs := escapes_percentEncode (h s List.mem_cons_self)
      exact (Escapes.same '/' hs).append (ih fun s hs => h s (List.mem_cons_of_mem _ hs))

theorem percentEncode_nil {set : Char → Bool} {text : List Char} : percentEncode set text = [] ↔ text = [] := by
  constructor
  · intro h
    cases text with
    | nil => rfl
    | cons c text =>
        unfold percentEncode at h
        rw [List.flatMap_cons, List.append_eq_nil_iff] at h
        obtain ⟨b, bs, -, hescape⟩ := escapeChar_percent c
        have hfirst := h.1
        split at hfirst
        · rw [hescape] at hfirst
          cases hfirst
        · cases hfirst
  · rintro rfl
    rfl

theorem marked_percentEncode (set : Char → Bool) (sign : Char) (part : Option (List Char)) :
    marked sign (part.map (percentEncode set)) = [] ∧ marked sign part = [] ∨
      ∃ text, part = some text ∧ marked sign part = sign :: text ∧
        marked sign (part.map (percentEncode set)) = sign :: percentEncode set text := by
  cases part with
  | none => exact .inl ⟨rfl, rfl⟩
  | some text =>
      cases text with
      | nil => exact .inl ⟨rfl, rfl⟩
      | cons c text =>
          refine .inr ⟨c :: text, rfl, rfl, ?_⟩
          cases hcode : percentEncode set (c :: text) with
          | nil => cases percentEncode_nil.mp hcode
          | cons d rest =>
              rw [Option.map_some, hcode]
              rfl

theorem escapes_marked {set : Char → Bool} (sign : Char) {part : Option (List Char)}
    (h : ∀ text ∈ part, ∀ c ∈ text, set c = true → Escapable c) :
    Escapes (marked sign part) (marked sign (part.map (percentEncode set))) := by
  rcases marked_percentEncode set sign part with ⟨hcode, htext⟩ | ⟨text, rfl, htext, hcode⟩
  · rw [hcode, htext]
    exact .nil
  · rw [hcode, htext]
    exact .same sign (escapes_percentEncode (h text rfl))

/-- What is left of a reference in a URL: its path, query and fragment, escaped. -/
def Reference.text (reference : Reference) : List Char :=
  slashed ((resolveDots [] reference.segments).map (percentEncode pathSet)) ++
    marked '?' (reference.query.map (percentEncode querySet)) ++
    marked '#' (reference.fragment.map (percentEncode fragmentSet))

/-- **The URL says what the reference says**, with some characters escaped. -/
theorem Reference.Cut.escapes {reference : Reference} (h : reference.Cut) :
    Escapes reference.shown reference.text := by
  refine ((escapes_slashed fun s hs c hc hset => ?_).append
    (escapes_marked _ fun q hq c hc hset => ?_)).append
    (escapes_marked _ fun f _ c _ hset => fragmentSet_escapable hset)
  · exact pathSet_escapable hset (h.resolved hs c hc).2
  · exact querySet_escapable hset (h.query q hq c hc)

end Text

/-! ## 6. Reading a URL again -/

section Again

/-- The first segment that is not empty. -/
def firstText : List (List Char) → List Char
  | [] => []
  | [] :: rest => firstText rest
  | (c :: s) :: _ => c :: s

/-- The authority that a path names when it is read again: a path that begins with an empty
    segment begins with two slashes. -/
def hiddenAuthority : List (List Char) → Option (List Char)
  | [] :: s :: rest => some (percentEncode pathSet (firstText (s :: rest)))
  | _ => none

/-- What the characters of an escaped text have in common. -/
theorem forall_percentEncode {P : Char → Prop} {set : Char → Bool} {text : List Char}
    (hsign : P '%') (hdigit : ∀ n < 16, P (hexDigit n))
    (htext : ∀ c ∈ text, set c = false → P c) : ∀ c ∈ percentEncode set text, P c := by
  intro c hc
  obtain ⟨d, hd, hc⟩ := List.mem_flatMap.mp hc
  split at hc
  · obtain ⟨b, -, hc⟩ := List.mem_flatMap.mp hc
    have hlt := b.toNat_lt
    simp only [escapeByte, List.mem_cons, List.not_mem_nil, or_false] at hc
    rcases hc with rfl | rfl | rfl
    · exact hsign
    · exact hdigit _ (by omega)
    · exact hdigit _ (by omega)
  · rename_i hset
    rw [List.mem_singleton.mp hc]
    exact htext d hd (Bool.eq_false_iff.mpr hset)

/-- A visible ASCII character. -/
def Printable (c : Char) : Prop := 0x20 < c.toNat ∧ c.toNat ≤ 0x7E

instance (c : Char) : Decidable (Printable c) := inferInstanceAs (Decidable (_ ∧ _))

theorem printable_of_not_control {c : Char} (h : isControl c = false) (hspace : c ≠ ' ') :
    Printable c := by
  unfold isControl at h
  rw [Bool.or_eq_false_iff, decide_eq_false_iff_not, decide_eq_false_iff_not,
    UInt32.le_iff_toNat_le, UInt32.lt_iff_toNat_lt] at h
  have hne : c.toNat ≠ 0x20 := fun heq => hspace (by
    rw [← Char.ofNat_toNat c, heq])
  have hlow : ¬ c.toNat ≤ 31 := h.1
  have hhigh : ¬ 126 < c.toNat := h.2
  exact ⟨by omega, by omega⟩

theorem printable_percentEncode {set : Char → Bool} (text : List Char)
    (h : ∀ c, set c = false → isControl c = false ∧ c ≠ ' ') :
    ∀ c ∈ percentEncode set text, Printable c :=
  forall_percentEncode (by decide) (by decide) fun c _ hset =>
    printable_of_not_control (h c hset).1 (h c hset).2

theorem printable_marked {set : Char → Bool} (sign : Char) (hsign : Printable sign)
    (h : ∀ c, set c = false → isControl c = false ∧ c ≠ ' ') (part : Option (List Char)) :
    ∀ c ∈ marked sign (part.map (percentEncode set)), Printable c := by
  rcases marked_percentEncode set sign part with ⟨hcode, -⟩ | ⟨text, -, -, hcode⟩
  · rw [hcode]
    exact nofun
  · rw [hcode]
    intro c hc
    rcases List.mem_cons.mp hc with rfl | hc
    · exact hsign
    · exact printable_percentEncode text h c hc

theorem printable_text (reference : Reference) : ∀ c ∈ reference.text, Printable c := by
  have hset : ∀ (l : List Char) (c : Char), ' ' ∈ l →
      (isControl c || l.contains c) = false → isControl c = false ∧ c ≠ ' ' := by
    intro l c hspace h
    obtain ⟨hcontrol, hout⟩ := Bool.or_eq_false_iff.mp h
    refine ⟨hcontrol, ?_⟩
    rintro rfl
    exact Bool.false_ne_true (hout.symm.trans (List.contains_iff_mem.mpr hspace))
  intro c hc
  unfold Reference.text at hc
  rcases List.mem_append.mp hc with hc | hc
  · rcases List.mem_append.mp hc with hc | hc
    · obtain ⟨s, hs, hc⟩ := List.mem_flatMap.mp hc
      obtain ⟨s, -, rfl⟩ := List.mem_map.mp hs
      rcases List.mem_cons.mp hc with rfl | hc
      · decide
      · exact printable_percentEncode s (fun c => hset _ c (by decide)) c hc
    · exact printable_marked '?' (by decide) (fun c => hset _ c (by decide)) _ c hc
  · exact printable_marked '#' (by decide) (fun c => hset _ c (by decide)) _ c hc

/-- Nothing of a printable text is dropped. -/
theorem cleaned_printable {text : List Char} (h : ∀ c ∈ text, Printable c) :
    cleaned text = text := by
  have hdrop : ∀ l : List Char, (∀ c ∈ l, Printable c) → l.dropWhile isControlOrSpace = l := by
    intro l hl
    cases l with
    | nil => rfl
    | cons c l =>
        refine List.dropWhile_cons_of_neg ?_
        obtain ⟨hlow, -⟩ := hl c List.mem_cons_self
        unfold isControlOrSpace
        rw [decide_eq_true_eq, UInt32.le_iff_toNat_le]
        show ¬ c.toNat ≤ 32
        omega
  unfold cleaned
  rw [hdrop text h, hdrop text.reverse fun c hc => h c (List.mem_reverse.mp hc),
    List.reverse_reverse]
  refine List.filter_eq_self.mpr fun c hc => ?_
  obtain ⟨hlow, -⟩ := h c hc
  unfold isTabOrNewline
  rw [Bool.not_eq_true', Bool.or_eq_false_iff, Bool.or_eq_false_iff, beq_eq_false_iff_ne,
    beq_eq_false_iff_ne, beq_eq_false_iff_ne]
  refine ⟨⟨?_, ?_⟩, ?_⟩
  all_goals
    rintro rfl
    revert hlow
    decide

/-- The sign of a query or a fragment, where there is one, ends a path. -/
theorem parts_end (reference : Reference) :
    marked '?' (reference.query.map (percentEncode querySet)) ++
        marked '#' (reference.fragment.map (percentEncode fragmentSet)) = [] ∨
      ∃ c rest, endsPath c = true ∧ isSlash c = false ∧
        marked '?' (reference.query.map (percentEncode querySet)) ++
          marked '#' (reference.fragment.map (percentEncode fragmentSet)) = c :: rest := by
  rcases marked_percentEncode querySet '?' reference.query with ⟨hq, -⟩ | ⟨q, -, -, hq⟩
  · rcases marked_percentEncode fragmentSet '#' reference.fragment with
      ⟨hf, -⟩ | ⟨f, -, -, hf⟩
    · rw [hq, hf]
      exact .inl rfl
    · rw [hq, hf]
      exact .inr ⟨'#', _, rfl, rfl, rfl⟩
  · rw [hq]
    exact .inr ⟨'?', _, rfl, rfl, rfl⟩

/-- The characters of an escaped segment separate nothing. -/
theorem clear_percentEncode {s : List Char} (h : ∀ c ∈ s, isSlash c = false ∧ endsPath c = false) :
    ∀ c ∈ percentEncode pathSet s, isSlash c = false ∧ endsPath c = false :=
  forall_percentEncode (by decide) (by decide) fun c hc _ => h c hc

/-- Past the slashes, up to a separator: the first segment that is not empty. -/
theorem takeWhile_segments {segments : List (List Char)} {tail : List Char}
    (hclear : ∀ s ∈ segments, ∀ c ∈ s, isSlash c = false ∧ endsPath c = false)
    (htail : tail = [] ∨ ∃ c rest, endsPath c = true ∧ isSlash c = false ∧ tail = c :: rest) :
    ((slashed (segments.map (percentEncode pathSet)) ++ tail).dropWhile isSlash).takeWhile
        (fun c => !isSlash c && !endsPath c) = percentEncode pathSet (firstText segments) := by
  have hstop : tail.dropWhile isSlash = tail ∧
      tail.takeWhile (fun c => !isSlash c && !endsPath c) = [] := by
    rcases htail with rfl | ⟨c, rest, hc, hslash, rfl⟩
    · exact ⟨rfl, rfl⟩
    · rw [List.dropWhile_cons_of_neg (by rw [hslash]; exact Bool.false_ne_true),
        List.takeWhile_cons_of_neg (by rw [hc, Bool.not_true, Bool.and_false]; exact Bool.false_ne_true)]
      exact ⟨rfl, rfl⟩
  induction segments with
  | nil =>
      show (tail.dropWhile isSlash).takeWhile _ = []
      rw [hstop.1, hstop.2]
  | cons s segments ih =>
      have hslash : slashed ((s :: segments).map (percentEncode pathSet)) ++ tail =
          '/' :: (percentEncode pathSet s ++
            (slashed (segments.map (percentEncode pathSet)) ++ tail)) := by
        show ('/' :: percentEncode pathSet s) ++ slashed (segments.map (percentEncode pathSet)) ++
          tail = _
        rw [List.append_assoc, List.cons_append]
      rw [hslash, List.dropWhile_cons_of_pos rfl]
      cases s with
      | nil => exact ih fun s hs => hclear s (List.mem_cons_of_mem _ hs)
      | cons c s =>
          have hs := clear_percentEncode (hclear (c :: s) List.mem_cons_self)
          show _ = percentEncode pathSet (c :: s)
          cases hcode : percentEncode pathSet (c :: s) with
          | nil => cases percentEncode_nil.mp hcode
          | cons d code =>
              rw [hcode] at hs
              rw [List.cons_append, List.dropWhile_cons_of_neg (by
                rw [(hs d List.mem_cons_self).1]
                exact Bool.false_ne_true), ← List.cons_append, List.takeWhile_append_of_pos fun x hx => by
                  rw [(hs x hx).1, (hs x hx).2]
                  rfl]
              have hnext : (slashed (segments.map (percentEncode pathSet)) ++ tail).takeWhile
                  (fun c => !isSlash c && !endsPath c) = [] := by
                cases segments with
                | nil => exact hstop.2
                | cons s' segments => rfl
              rw [hnext, List.append_nil]

theorem readRest_authority (authority : Option (List Char)) (text : List Char) :
    (readRest authority text).authority = authority := rfl

theorem readReference_plain {c : Char} (h : isSlash c = false) (rest : List Char) :
    (readReference (c :: rest)).authority = none := by
  unfold readReference
  dsimp only
  rw [h]
  rfl

theorem readReference_slash (c : Char) (h : isSlash c = true) (rest : List Char) :
    (readReference (c :: rest)).authority =
      some ((rest.dropWhile isSlash).takeWhile fun c => !isSlash c && !endsPath c) := by
  unfold readReference
  dsimp only
  rw [h, if_pos rfl]
  split <;> exact readRest_authority _ _

/-- **What a URL says, read again**, names the authority that hides in its path, or none. -/
theorem Reference.Cut.reread {reference : Reference} (h : reference.Cut) :
    (referenceOf reference.text).authority =
      hiddenAuthority (resolveDots [] reference.segments) := by
  have hne := resolveDots_ne_nil [] h.segments
  have hclear := fun s (hs : s ∈ resolveDots [] reference.segments) => h.resolved hs
  have htail := parts_end reference
  unfold referenceOf
  rw [cleaned_printable (printable_text reference)]
  unfold Reference.text
  rw [List.append_assoc]
  generalize resolveDots [] reference.segments = segments at hne hclear
  generalize marked '?' (reference.query.map (percentEncode querySet)) ++
    marked '#' (reference.fragment.map (percentEncode fragmentSet)) = tail at htail
  cases segments with
  | nil => exact absurd rfl hne
  | cons s segments =>
      have htext : (slashed ((s :: segments).map (percentEncode pathSet)) ++ tail).tail =
          percentEncode pathSet s ++ (slashed (segments.map (percentEncode pathSet)) ++ tail) := by
        show percentEncode pathSet s ++ slashed (segments.map (percentEncode pathSet)) ++ tail = _
        rw [List.append_assoc]
      rw [htext]
      cases s with
      | cons c s =>
          -- a first segment with text in it begins no authority
          have hs := clear_percentEncode (hclear (c :: s) List.mem_cons_self)
          cases hcode : percentEncode pathSet (c :: s) with
          | nil => cases percentEncode_nil.mp hcode
          | cons d code =>
              rw [hcode] at hs
              exact readReference_plain (hs d List.mem_cons_self).1 _
      | nil =>
          cases segments with
          | nil =>
              rcases htail with rfl | ⟨c, rest, -, hslash, rfl⟩
              · rfl
              · exact readReference_plain hslash rest
          | cons s' segments =>
              refine (readReference_slash '/' rfl _).trans (congrArg some ?_)
              have hrest := takeWhile_segments (fun s hs =>
                hclear s (List.mem_cons_of_mem _ hs)) htail
              exact hrest

end Again

/-! ## 7. Plain segments -/

section Plain

variable {hostParser : List Char → Option String}

/-- A character that a path holds as it is and that ends no segment. -/
structure PathChar (c : Char) : Prop where
  printable : Printable c
  slash : isSlash c = false
  ends : endsPath c = false
  kept : pathSet c = false

theorem percentEncode_kept {set : Char → Bool} {text : List Char} (h : ∀ c ∈ text, set c = false) :
    percentEncode set text = text := by
  unfold percentEncode
  induction text with
  | nil => rfl
  | cons c text ih =>
      rw [List.flatMap_cons, h c List.mem_cons_self,
        ih fun d hd => h d (List.mem_cons_of_mem _ hd)]
      rfl

theorem splitSlashes_clear {s : List Char} (h : ∀ c ∈ s, isSlash c = false) :
    splitSlashes s = [s] := by
  induction s with
  | nil => rfl
  | cons c s ih =>
      unfold splitSlashes
      rw [h c List.mem_cons_self, if_neg Bool.false_ne_true,
        ih fun d hd => h d (List.mem_cons_of_mem _ hd)]

theorem splitSlashes_append {s : List Char} (h : ∀ c ∈ s, isSlash c = false) (text : List Char) :
    splitSlashes (s ++ '/' :: text) = s :: splitSlashes text := by
  induction s with
  | nil => rfl
  | cons c s ih =>
      rw [List.cons_append]
      conv => lhs; unfold splitSlashes
      rw [h c List.mem_cons_self, if_neg Bool.false_ne_true,
        ih fun d hd => h d (List.mem_cons_of_mem _ hd)]

theorem splitSlashes_slashed {s : List Char} {segments : List (List Char)}
    (h : ∀ t ∈ s :: segments, ∀ c ∈ t, isSlash c = false) :
    splitSlashes (s ++ slashed segments) = s :: segments := by
  induction segments generalizing s with
  | nil =>
      show splitSlashes (s ++ []) = [s]
      rw [List.append_nil]
      exact splitSlashes_clear (h s List.mem_cons_self)
  | cons t segments ih =>
      show splitSlashes (s ++ '/' :: (t ++ slashed segments)) = _
      rw [splitSlashes_append (h s List.mem_cons_self),
        ih fun u hu => h u (List.mem_cons_of_mem _ hu)]

/-- **Segments of plain characters are read as they are**, their dots resolved. -/
theorem parseRooted_slashed {c : Char} {s : List Char} {segments : List (List Char)}
    (h : ∀ t ∈ (c :: s) :: segments, ∀ d ∈ t, PathChar d) (base : Origin) :
    parseRooted hostParser base (slashed ((c :: s) :: segments)) =
      some ⟨base, resolveDots [] ((c :: s) :: segments), none, none⟩ := by
  have htext : slashed ((c :: s) :: segments) = '/' :: c :: (s ++ slashed segments) := rfl
  have hchars : ∀ d ∈ c :: (s ++ slashed segments), d = '/' ∨ PathChar d := by
    have hall : ∀ d ∈ slashed ((c :: s) :: segments), d = '/' ∨ PathChar d := by
      intro d hd
      obtain ⟨t, ht, hd⟩ := List.mem_flatMap.mp hd
      exact (List.mem_cons.mp hd).imp_right (h t ht d)
    exact fun d hd => hall d (htext ▸ List.mem_cons_of_mem _ hd)
  have hclean : cleaned (slashed ((c :: s) :: segments)) = '/' :: c :: (s ++ slashed segments) := by
    rw [htext]
    refine cleaned_printable fun d hd => ?_
    rcases List.mem_cons.mp hd with rfl | hd
    · decide
    · rcases hchars d hd with rfl | hd
      · decide
      · exact hd.printable
  have hends : ∀ d ∈ c :: (s ++ slashed segments), (!endsPath d) = true := by
    intro d hd
    rcases hchars d hd with rfl | hd
    · rfl
    · rw [hd.ends]
      rfl
  have hrest : readRest none (c :: (s ++ slashed segments)) =
      ⟨none, (c :: s) :: segments, none, none⟩ := by
    unfold readRest
    dsimp only
    rw [List.takeWhile_eq_self_iff.mpr hends, List.dropWhile_eq_nil_iff.mpr hends,
      ← List.cons_append, splitSlashes_slashed fun t ht d hd => (h t ht d hd).slash]
    rfl
  have hreference : referenceOf (slashed ((c :: s) :: segments)) =
      ⟨none, (c :: s) :: segments, none, none⟩ := by
    unfold referenceOf
    rw [hclean, List.tail_cons, ← hrest]
    unfold readReference
    dsimp only
    rw [(h (c :: s) List.mem_cons_self c List.mem_cons_self).slash, if_neg Bool.false_ne_true]
  have hkept : (resolveDots [] ((c :: s) :: segments)).map (percentEncode pathSet) =
      resolveDots [] ((c :: s) :: segments) := by
    refine (List.map_congr_left fun t ht => ?_).trans (List.map_id _)
    refine percentEncode_kept fun d hd => ?_
    rcases mem_resolveDots ht with ht | ht | rfl
    · cases ht
    · exact (h t ht d hd).kept
    · cases hd
  unfold parseRooted
  rw [hreference]
  show some _ = some _
  rw [hkept]
  rfl

/-- Segments that are no dots are kept, whatever follows them. -/
theorem resolveDots_append {kept segments : List (List Char)}
    (h : ∀ s ∈ segments, isSingleDot s = false ∧ isDoubleDot s = false) (rest : List (List Char)) :
    resolveDots kept (segments ++ rest) = resolveDots (kept ++ segments) rest := by
  induction segments generalizing kept with
  | nil => rw [List.nil_append, List.append_nil]
  | cons s segments ih =>
      obtain ⟨hdot, hdots⟩ := h s List.mem_cons_self
      have ih := @ih (kept ++ [s]) fun t ht => h t (List.mem_cons_of_mem _ ht)
      rw [List.append_assoc, List.singleton_append] at ih
      rw [List.cons_append, ← ih]
      cases segments ++ rest with
      | nil =>
          unfold resolveDots
          rw [hdot, hdots]
          rfl
      | cons next rest =>
          conv => lhs; unfold resolveDots
          rw [hdot, hdots]
          rfl

/-! ### Dots -/

theorem readDot_decode {segment rest : List Char} (h : readDot segment = some rest) :
    decodeFrom .text segment = (decodeFrom .text rest).map fun text => '.' :: text := by
  have h2 : hexValue '2' = some 2 := by decide
  have hbyte : decodeByte none (UInt8.ofNat 46) = some (.text, ['.']) := rfl
  have hlast : ∀ c, hexValue c = some 14 →
      (DecodeState.digit none 2).step c = some (.text, ['.']) := by
    intro c hc
    unfold DecodeState.step
    dsimp only
    rw [hc, Option.bind_some, hbyte]
  have hescaped : ∀ c, hexValue c = some 14 → ∀ rest, decodeFrom .text ('%' :: '2' :: c :: rest) =
      (decodeFrom .text rest).map fun text => '.' :: text := by
    intro c hc rest
    have hdigit : (DecodeState.percent none).step '2' = some (.digit none 2, []) := by
      unfold DecodeState.step
      dsimp only
      rw [h2]
      rfl
    rw [decodeFrom_silent (c := '%') rfl, decodeFrom_silent hdigit]
    exact decodeFrom_step (hlast c hc) rest
  unfold readDot at h
  split at h
  · cases h
    exact decodeFrom_plain (by decide) _
  · cases h
    exact hescaped 'e' (by decide) _
  · cases h
    exact hescaped 'E' (by decide) _
  · cases h

theorem readDot_mem {segment rest : List Char} (h : readDot segment = some rest) :
    ∀ c ∈ segment, c ∈ rest ∨ c ∈ ['.', '%', '2', 'e', 'E'] := by
  unfold readDot at h
  split at h
  · cases h
    intro c hc
    simp only [List.mem_cons] at hc ⊢
    tauto
  · cases h
    intro c hc
    simp only [List.mem_cons] at hc ⊢
    tauto
  · cases h
    intro c hc
    simp only [List.mem_cons] at hc ⊢
    tauto
  · cases h

/-- A single dot, however it is written, decodes to a dot. -/
theorem isSingleDot_decode {segment : List Char} (h : isSingleDot segment = true) :
    decodeURIComponent segment = some ['.'] := by
  unfold isSingleDot at h
  unfold decodeURIComponent
  rw [readDot_decode (beq_iff_eq.mp h)]
  rfl

theorem isDoubleDot_decode {segment : List Char} (h : isDoubleDot segment = true) :
    decodeURIComponent segment = some ['.', '.'] := by
  unfold isDoubleDot at h
  obtain ⟨rest, hfirst, hsecond⟩ := Option.bind_eq_some_iff.mp (beq_iff_eq.mp h)
  unfold decodeURIComponent
  rw [readDot_decode hfirst, readDot_decode hsecond]
  rfl

/-- A dot segment is written with these characters only. -/
theorem dots_mem {segment : List Char}
    (h : isSingleDot segment = true ∨ isDoubleDot segment = true) :
    ∀ c ∈ segment, c ∈ ['.', '%', '2', 'e', 'E'] := by
  intro c hc
  rcases h with h | h
  · exact (readDot_mem (beq_iff_eq.mp h) c hc).resolve_left List.not_mem_nil
  · obtain ⟨rest, hfirst, hsecond⟩ := Option.bind_eq_some_iff.mp (beq_iff_eq.mp h)
    rcases readDot_mem hfirst c hc with hc | hc
    · exact (readDot_mem hsecond c hc).resolve_left List.not_mem_nil
    · exact hc

end Plain

end Stowplan
