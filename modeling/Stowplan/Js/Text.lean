/-
  File:      Stowplan/Js/Text.lean
  Subject:   STRINGS, and what the host decides about them.

  `trim` is the language's. Case mapping depends on the host's locale, `Date.parse` accepts
  implementation-defined formats and the text of a number needs the shortest double that reads
  back: these are the fields of `Host`, over which the whole model is stated. Two laws are asked
  of a host: the empty string is no date, and upper case leaves no text empty.
-/
import Stowplan.Js.Number
import Stowplan.Js.Utf16
import Mathlib.Data.List.TakeWhile

namespace Stowplan

/-- The JavaScript environment the program runs in. -/
class Host where
  toUpperCase : String → String
  toLocaleUpperCase : String → String
  toLocaleLowerCase : String → String
  /-- `Number.isFinite(Date.parse(text))` -/
  isDate : String → Bool
  numberText : JsNumber → String
  isDate_empty : isDate "" = false
  toLocaleUpperCase_empty : ∀ s, toLocaleUpperCase s = "" → s = ""

/-- `String.prototype.localeCompare`, in the locale of the host. -/
class Collation where
  localeCompare : String → String → Int

/-- White space and line terminators, the characters `String.prototype.trim` removes. -/
def spaceCodes : List Nat :=
  [0x9, 0xA, 0xB, 0xC, 0xD, 0x20, 0xA0, 0x1680, 0x2000, 0x2001, 0x2002, 0x2003, 0x2004, 0x2005,
    0x2006, 0x2007, 0x2008, 0x2009, 0x200A, 0x2028, 0x2029, 0x202F, 0x205F, 0x3000, 0xFEFF]

/-- A character that `trim` removes. -/
def isSpace (c : Char) : Bool := spaceCodes.contains c.toNat

/-- `text.trim()`. -/
def trim (s : String) : String :=
  String.ofList (((s.toList.dropWhile isSpace).reverse.dropWhile isSpace).reverse)

/-- `!text.trim()`. -/
def blank (s : String) : Bool := trim s == ""

/-- `!string.trim()`, of a string that may be no text. No surrogate is a space. -/
def blankUnits (s : JsString) : Bool := s.all fun u => spaceCodes.contains u.toNat

/-- `String.length`, in units of UTF-16. -/
def utf16Length (s : String) : Nat := (s.toList.map fun c => if c.val < 0x10000 then 1 else 2).sum

/-- The pieces of a character list between dots. -/
def splitDots : List Char → List (List Char)
  | [] => [[]]
  | c :: cs =>
    if c = '.' then [] :: splitDots cs
    else match splitDots cs with
      | [] => [[c]]
      | w :: ws => (c :: w) :: ws

/-- `path.split(".")`. -/
def splitPath (path : String) : List String := (splitDots path.toList).map String.ofList

/-- `text.replace("_", " ")`: the first underscore only. -/
def replaceUnderscore (s : String) : String :=
  match s.toList.span (· ≠ '_') with
  | (a, []) => String.ofList a
  | (a, _ :: b) => String.ofList (a ++ ' ' :: b)

/-- `Boolean(value)` of a nullable string: a timestamp field counts as set when it is not
    empty. -/
def isSet : Option String → Bool
  | some s => s != ""
  | none => false

theorem blank_empty : blank "" = true := by decide +kernel

theorem ne_empty_of_not_blank {s : String} (h : blank s = false) : s ≠ "" := by
  rintro rfl
  rw [blank_empty] at h
  cases h

theorem isSet_some {s : String} (h : s ≠ "") : isSet (some s) = true := by
  simp [isSet, h]

/-- A text the host reads as a date is not empty. -/
theorem ne_empty_of_isDate [Host] {s : String} (h : Host.isDate s = true) : s ≠ "" := by
  rintro rfl
  rw [Host.isDate_empty] at h
  cases h

/-- The leading character of what is left after dropping spaces is no space. -/
theorem head_dropWhile_isSpace (l : List Char) :
    ∀ c ∈ (l.dropWhile isSpace).head?, isSpace c = false := by
  intro c hc
  have := List.head?_dropWhile_not isSpace l
  rw [Option.mem_def] at hc
  rw [hc] at this
  simpa using this

theorem dropWhile_of_head {l : List Char} (h : ∀ c ∈ l.head?, isSpace c = false) :
    l.dropWhile isSpace = l := by
  cases l with
  | nil => rfl
  | cons c cs => simp [List.dropWhile, h c (by simp)]

/-- Trimming twice is trimming once. -/
theorem trim_trim (s : String) : trim (trim s) = trim s := by
  unfold trim
  rw [String.toList_ofList]
  congr 2
  generalize hl : s.toList.dropWhile isSpace = l
  have hhead : ∀ c ∈ l.head?, isSpace c = false := hl ▸ head_dropWhile_isSpace _
  generalize hr : l.reverse.dropWhile isSpace = r
  have hrhead : ∀ c ∈ r.head?, isSpace c = false := hr ▸ head_dropWhile_isSpace _
  -- the first character of the trimmed list is still the first character of `l`
  have hfront : ∀ c ∈ r.reverse.head?, isSpace c = false := by
    intro c hc
    have hsuf : r <:+ l.reverse := hr ▸ List.dropWhile_suffix _
    have hpre : r.reverse <+: l := by
      have := List.reverse_prefix.mpr hsuf
      rwa [List.reverse_reverse] at this
    obtain ⟨t, rfl⟩ := hpre
    refine hhead c ?_
    cases hrr : r.reverse with
    | nil => rw [hrr] at hc; simp at hc
    | cons a as => rw [hrr] at hc; simpa using hc
  rw [dropWhile_of_head hfront, List.reverse_reverse, dropWhile_of_head hrhead]

theorem blank_trim (s : String) : blank (trim s) = blank s := by
  unfold blank
  rw [trim_trim]

/-- A string is blank where it has spaces only. -/
theorem blank_iff {s : String} : blank s = true ↔ ∀ c ∈ s.toList, isSpace c = true := by
  have hhead := head_dropWhile_isSpace s.toList
  unfold blank trim
  rw [beq_iff_eq, ← String.toList_inj, String.toList_ofList, String.toList_empty,
    List.reverse_eq_nil_iff, List.dropWhile_eq_nil_iff,
    ← List.dropWhile_eq_nil_iff (p := isSpace) (l := s.toList)]
  generalize s.toList.dropWhile isSpace = l at hhead
  constructor
  · intro h
    cases l with
    | nil => rfl
    | cons c l =>
        have hspace := h c (List.mem_reverse.mpr List.mem_cons_self)
        rw [hhead c rfl] at hspace
        cases hspace
  · rintro rfl c hc
    cases hc

/-- The units of a character are spaces where it is one. -/
theorem charUnits_space (c : Char) :
    (∀ u ∈ charUnits c, spaceCodes.contains u.toNat = true) ↔ isSpace c = true := by
  by_cases hc : c.toNat < 0x10000
  · have hu : (UInt16.ofNat c.toNat).toNat = c.toNat := ofNat_toNat16 hc
    rw [charUnits_single hu.symm, List.forall_mem_singleton, hu]
    rfl
  · obtain ⟨high, low, hunits, hpair, -⟩ := charUnits_pair (Nat.le_of_not_lt hc)
    -- no space is a surrogate, and none is beyond the basic plane
    have hfar : ∀ n ∈ spaceCodes, n < 0x10000 ∧ ¬ (0xD800 ≤ n ∧ n < 0xDC00) := by decide
    refine iff_of_false (fun h => ?_) fun h => hc (hfar _ (List.contains_iff_mem.mp h)).1
    have hspace := h high (by rw [hunits]; exact List.mem_cons_self)
    have hhigh := (Bool.and_eq_true_iff.mp hpair).1
    unfold isHighSurrogate at hhigh
    rw [Bool.and_eq_true, decide_eq_true_eq, decide_eq_true_eq] at hhigh
    exact (hfar _ (List.contains_iff_mem.mp hspace)).2 hhigh

theorem blankUnits_utf16 (s : String) : blankUnits (utf16 s) = blank s := by
  rw [Bool.eq_iff_iff, blank_iff]
  unfold blankUnits utf16 unitsOf
  rw [List.all_eq_true]
  constructor
  · intro h c hc
    exact (charUnits_space c).mp fun u hu => h u (List.mem_flatMap.mpr ⟨c, hc, hu⟩)
  · intro h u hu
    obtain ⟨c, hc, hu⟩ := List.mem_flatMap.mp hu
    exact (charUnits_space c).mpr (h c hc) u hu

/-! ## A host of plain text -/

/-- A text has the form: `d` stands for a digit, any other character for itself. -/
def matchesForm : List Char → List Char → Bool
  | [], [] => true
  | 'd' :: form, c :: cs => decide ('0' ≤ c) && decide (c ≤ '9') && matchesForm form cs
  | a :: form, c :: cs => a == c && matchesForm form cs
  | _, _ => false

theorem matchesForm_empty :
    matchesForm "dddd-dd-ddTdd:dd:dd.dddZ".toList "".toList = false := by
  decide +kernel

theorem toUpper_empty (s : String) (h : String.ofList (s.toList.map Char.toUpper) = "") :
    s = "" := by
  have hnil : (String.ofList (s.toList.map Char.toUpper)).toList = [] := by rw [h]; rfl
  simpa using hnil

/-- A host that knows the letters of ASCII, whole numbers, and dates as `toISOString` writes
    them. -/
@[reducible] def asciiHost : Host where
  toUpperCase s := String.ofList (s.toList.map Char.toUpper)
  toLocaleUpperCase s := String.ofList (s.toList.map Char.toUpper)
  toLocaleLowerCase s := String.ofList (s.toList.map Char.toLower)
  isDate s := matchesForm "dddd-dd-ddTdd:dd:dd.dddZ".toList s.toList
  numberText x := match x.toInt? with
    | some i => toString i
    | none => "NaN"
  isDate_empty := matchesForm_empty
  toLocaleUpperCase_empty := toUpper_empty

/-- Texts in the order of their characters. -/
@[reducible] def plainCollation : Collation where
  localeCompare a b := if a < b then -1 else if a = b then 0 else 1

end Stowplan
