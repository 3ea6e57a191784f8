/-
  File:      Stowplan/Js/JsonSize.lean
  Subject:   HOW MANY BYTES THE TEXT OF A VALUE TAKES, from its parts.

  * `jsonBytes_arr`, `jsonBytes_obj`: the bytes of a list and of an object, with their commas;
  * `quoteBytes_append`: the bytes of a string;
  * `quoteBytes_repr_le`: a smaller number is no longer.
-/
import Stowplan.Js.Json
import Mathlib.Tactic.IntervalCases

namespace Stowplan.JsValue

/-! ## 1. Strings -/

/-- The bytes of a character inside a JSON string. -/
def escapedBytes (c : Char) : Nat := String.utf8Len (escapeChar c)

/-- The bytes between the quotes. -/
def quoteBytes (s : String) : Nat := (s.toList.map escapedBytes).sum

theorem utf8Len_flatMap (f : Char → List Char) (l : List Char) :
    String.utf8Len (l.flatMap f) = (l.map fun c => String.utf8Len (f c)).sum := by
  induction l with
  | nil => rfl
  | cons c l ih => rw [List.flatMap_cons, String.utf8Len_append, ih, List.map_cons, List.sum_cons]

theorem utf8ByteSize_quoteText (s : String) : (quoteText s).utf8ByteSize = 2 + quoteBytes s := by
  unfold quoteText
  rw [String.utf8ByteSize_ofList, String.utf8Len_append, String.utf8Len_append, utf8Len_flatMap]
  show 1 + quoteBytes s + 1 = _
  omega

theorem quoteBytes_append (s t : String) : quoteBytes (s ++ t) = quoteBytes s + quoteBytes t := by
  unfold quoteBytes
  rw [String.toList_append, List.map_append, List.sum_append]

/-- A digit is not escaped. -/
theorem escapedBytes_digit {c : Char} (h : c.isDigit = true) : escapedBytes c = 1 := by
  have hdigit : ∀ n, 48 ≤ n → n ≤ 57 → escapedBytes (Char.ofNat n) = 1 := by
    intro n hlow hhigh
    interval_cases n <;> decide
  simp only [Char.isDigit, Bool.and_eq_true, decide_eq_true_eq] at h
  rw [← Char.ofNat_toNat c]
  exact hdigit c.toNat h.1 h.2

theorem quoteBytes_repr (n : Nat) : quoteBytes (toString n) = (Nat.toDigits 10 n).length := by
  unfold quoteBytes
  rw [Nat.toString_eq_ofList_toDigits, String.toList_ofList,
    List.map_congr_left fun c hc => escapedBytes_digit
      (Nat.isDigit_of_mem_toDigits (by decide) (by decide) hc)]
  simp

/-- A smaller number is no longer. -/
theorem quoteBytes_repr_le {m n : Nat} (h : m ≤ n) :
    quoteBytes (toString m) ≤ quoteBytes (toString n) := by
  rw [quoteBytes_repr, quoteBytes_repr]
  have hpos := Nat.length_toDigits_pos (b := 10) (n := n)
  rw [Nat.length_toDigits_le_iff (by decide) hpos]
  exact lt_of_le_of_lt h ((Nat.length_toDigits_le_iff (by decide) hpos).mp le_rfl)

/-! ## 2. Lists and objects -/

variable [Host]

/-- The bytes of a value as JSON. -/
def jsonBytes (v : JsValue) : Nat := (stringify v).utf8ByteSize

theorem jsonBytes_str (s : String) : jsonBytes (.str s) = 2 + quoteBytes s := by
  unfold jsonBytes
  rw [stringify]
  exact utf8ByteSize_quoteText s

/-- The bytes of values in a list, each with its comma. -/
def listBytes (vs : List JsValue) : Nat := (vs.map fun v => jsonBytes v + 1).sum

/-- The bytes of the fields of an object, each with its comma. -/
def fieldBytes : List (String × JsValue) → Nat
  | [] => 0
  | (_, .undefined) :: rest => fieldBytes rest
  | (k, v) :: rest => 2 + quoteBytes k + 1 + jsonBytes v + 1 + fieldBytes rest

omit [Host] in
theorem utf8ByteSize_intercalate (xs : List String) :
    (String.intercalate "," xs).utf8ByteSize = (xs.map fun x => x.utf8ByteSize + 1).sum - 1 := by
  have hcomma : ",".utf8ByteSize = 1 := by decide
  induction xs with
  | nil => rfl
  | cons x xs ih =>
      cases xs with
      | nil => simp [String.intercalate_singleton]
      | cons y ys =>
          rw [String.intercalate_cons_cons, String.utf8ByteSize_append, String.utf8ByteSize_append,
            ih]
          simp only [List.map_cons, List.sum_cons]
          omega

theorem jsonBytes_arr (vs : List JsValue) : jsonBytes (.arr vs) = 2 + (listBytes vs - 1) := by
  have hlist : (stringifyList vs).map (fun x => x.utf8ByteSize + 1) =
      vs.map fun v => jsonBytes v + 1 := by
    induction vs with
    | nil => rfl
    | cons v vs ih =>
        rw [stringifyList, List.map_cons, List.map_cons, ih]
        rfl
  unfold jsonBytes listBytes
  rw [stringify, String.utf8ByteSize_append, String.utf8ByteSize_append, utf8ByteSize_intercalate,
    hlist]
  have hopen : "[".utf8ByteSize = 1 := by decide
  have hclose : "]".utf8ByteSize = 1 := by decide
  omega

theorem fieldBytes_stringify (fields : List (String × JsValue)) :
    ((stringifyFields fields).map fun x => x.utf8ByteSize + 1).sum = fieldBytes fields := by
  induction fields using fieldBytes.induct with
  | case1 => rfl
  | case2 k rest ih => rw [stringifyFields, fieldBytes, ih]
  | case3 k v rest hv ih =>
      rw [stringifyFields, fieldBytes, List.map_cons, List.sum_cons, ih,
        String.utf8ByteSize_append, String.utf8ByteSize_append, utf8ByteSize_quoteText]
      · have hcolon : ":".utf8ByteSize = 1 := by decide
        unfold jsonBytes
        omega
      · exact hv
      · exact hv

theorem jsonBytes_obj (fields : List (String × JsValue)) :
    jsonBytes (.obj fields) = 2 + (fieldBytes fields - 1) := by
  unfold jsonBytes
  rw [stringify, String.utf8ByteSize_append, String.utf8ByteSize_append, utf8ByteSize_intercalate,
    fieldBytes_stringify]
  have hopen : "\x7b".utf8ByteSize = 1 := by decide
  have hclose : "\x7d".utf8ByteSize = 1 := by decide
  omega

end Stowplan.JsValue
