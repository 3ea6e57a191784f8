/-
  File:      Stowplan/Js/Value.lean
  Subject:   JAVASCRIPT VALUES: what `JSON.parse` builds and `structuredClone` copies.

  A value is `undefined`, a JSON primitive, an array or an object; an object is the list of its
  own entries in insertion order, each key once. A property that is not there reads as
  `undefined`, as in the language.

  * `get`, `hasOwn`, `keys`, `setKey`, `delKey`: an object's own properties;
  * `stringOf`: `String(value)`, for the checks that coerce before they compare;
  * `throughText`: what `JSON.parse(JSON.stringify(value))` gives back;
  * `Proper`: no object inside lists a key twice, which holds of every value the language has.
-/
import Stowplan.Js.Number
import Mathlib.Data.String.Basic

namespace Stowplan

/-- A JavaScript value without functions, over the numbers of the engine or others. -/
inductive JsValue (ν : Type := JsNumber) where
  | undefined
  | null
  | bool (b : Bool)
  | num (x : ν)
  | str (s : String)
  | arr (xs : List (JsValue ν))
  | obj (fields : List (String × JsValue ν))

namespace JsValue

variable {ν : Type}

/-! ## 1. Decidable equality -/

mutual

/-- Structural comparison of two values. -/
def same : JsValue → JsValue → Bool
  | .undefined, .undefined | .null, .null => true
  | .bool a, .bool b => a == b
  | .num a, .num b => decide (a = b)
  | .str a, .str b => a == b
  | .arr a, .arr b => sameList a b
  | .obj a, .obj b => sameFields a b
  | _, _ => false

/-- Arrays element by element. -/
def sameList : List JsValue → List JsValue → Bool
  | [], [] => true
  | x :: xs, y :: ys => same x y && sameList xs ys
  | _, _ => false

/-- Objects field by field, in one order. -/
def sameFields : List (String × JsValue) → List (String × JsValue) → Bool
  | [], [] => true
  | (k, x) :: xs, (l, y) :: ys => k == l && same x y && sameFields xs ys
  | _, _ => false

end

mutual

theorem same_iff : ∀ a b : JsValue, same a b = true ↔ a = b
  | .undefined, b => by cases b <;> simp [same]
  | .null, b => by cases b <;> simp [same]
  | .bool _, b => by cases b <;> simp [same]
  | .num _, b => by cases b <;> simp [same]
  | .str _, b => by cases b <;> simp [same]
  | .arr xs, b => by
      cases b with
      | arr ys => simp [same, sameList_iff xs ys]
      | _ => simp [same]
  | .obj xs, b => by
      cases b with
      | obj ys => simp [same, sameFields_iff xs ys]
      | _ => simp [same]

theorem sameList_iff : ∀ xs ys : List JsValue, sameList xs ys = true ↔ xs = ys
  | [], ys => by cases ys <;> simp [sameList]
  | x :: xs, ys => by
      cases ys with
      | nil => simp [sameList]
      | cons y ys => simp [sameList, same_iff x y, sameList_iff xs ys]

theorem sameFields_iff : ∀ xs ys : List (String × JsValue), sameFields xs ys = true ↔ xs = ys
  | [], ys => by cases ys <;> simp [sameFields]
  | (k, x) :: xs, ys => by
      cases ys with
      | nil => simp [sameFields]
      | cons y ys =>
          obtain ⟨l, y⟩ := y
          simp [sameFields, same_iff x y, sameFields_iff xs ys, and_assoc]

end

instance : DecidableEq JsValue := fun a b => decidable_of_iff _ (same_iff a b)

/-! ## 2. Properties of objects -/

/-- The value an entry list holds under a key, `undefined` if it holds none. -/
def lookup (k : String) : List (String × JsValue ν) → JsValue ν
  | [] => .undefined
  | (l, v) :: rest => if l = k then v else lookup k rest

/-- `value[k]` of an own property. -/
def get (v : JsValue) (k : String) : JsValue :=
  match v with
  | .obj fields => lookup k fields
  | _ => .undefined

/-- `Object.keys(value)`. -/
def keys : JsValue → List String
  | .obj fields => fields.map (·.1)
  | _ => []

/-- `Object.hasOwn(value, k)`. -/
def hasOwn (v : JsValue) (k : String) : Bool := v.keys.contains k

/-- `Boolean(value) && typeof value === "object" && !Array.isArray(value)`. -/
def isRecord : JsValue ν → Bool
  | .obj _ => true
  | _ => false

/-- A field set where it is, or added at the end. -/
def setEntry (k : String) (v : JsValue) : List (String × JsValue) → List (String × JsValue)
  | [] => [(k, v)]
  | (l, w) :: rest => if l = k then (l, v) :: rest else (l, w) :: setEntry k v rest

/-- `value[k] = v`: an own property keeps its place, a new one comes last. -/
def setKey (o : JsValue) (k : String) (v : JsValue) : JsValue :=
  match o with
  | .obj fields => .obj (setEntry k v fields)
  | _ => o

/-- `delete value[k]`. -/
def delKey (o : JsValue) (k : String) : JsValue :=
  match o with
  | .obj fields => .obj (fields.filter (·.1 ≠ k))
  | _ => o

/-- `Boolean(value)`. -/
def truthy : JsValue → Bool
  | .undefined | .null => false
  | .bool b => b
  | .num x => decide (x ≠ .nan ∧ x ≠ 0)
  | .str s => s != ""
  | .arr _ | .obj _ => true

/-- `typeof value === "string"`. -/
def isString : JsValue → Bool
  | .str _ => true
  | _ => false

/-- `typeof value === "boolean"`. -/
def isBool : JsValue → Bool
  | .bool _ => true
  | _ => false

/-- `value === null || typeof value === "string"`. -/
def isNullableString : JsValue → Bool
  | .null | .str _ => true
  | _ => false

/-- `Number.isFinite(value)`. -/
def isFiniteNum : JsValue → Bool
  | .num x => x.isFinite
  | _ => false

/-- `Number.isFinite(value) && Number(value) > 0`. -/
def isPositiveNum : JsValue → Bool
  | .num x => x.isFinite && x.pos
  | _ => false

/-- `Number.isSafeInteger(value) && Number(value) >= n`. -/
def isSafeIntFrom (n : Int) : JsValue → Bool
  | .num x => match x.toInt? with
    | some i => JsNumber.safeInt i && decide (n ≤ i)
    | none => false
  | _ => false

/-- `Array.isArray(value)`. -/
def isArray : JsValue ν → Bool
  | .arr _ => true
  | _ => false

/-- The elements of an array, none of any other value. -/
def elems : JsValue → List JsValue
  | .arr xs => xs
  | _ => []

/-- `Array.isArray(value) && value.every((entry) => typeof entry === "string")`. -/
def isStringArray : JsValue → Bool
  | .arr xs => xs.all isString
  | _ => false

/-- The text of a string value. -/
def text : JsValue → String
  | .str s => s
  | _ => ""

mutual

/-- `String(value)`; the text of a number is the environment's. An object whose own `toString`
    hides the inherited one has no text: converting it throws. -/
def stringOf (numberText : JsNumber → String) : JsValue → Option String
  | .undefined => some "undefined"
  | .null => some "null"
  | .bool b => some (if b then "true" else "false")
  | .num x => some (numberText x)
  | .str s => some s
  | .arr xs => joinOf numberText xs
  | .obj fields => if (fields.map (·.1)).contains "toString" then none else some "[object Object]"

/-- `String` of an array joins its elements; `null` and `undefined` read as nothing. -/
def joinOf (numberText : JsNumber → String) : List JsValue → Option String
  | [] => some ""
  | [x] => elementText numberText x
  | x :: xs => match elementText numberText x, joinOf numberText xs with
    | some a, some b => some (a ++ "," ++ b)
    | _, _ => none

/-- The text of an element of an array: nothing for null and undefined. -/
def elementText (numberText : JsNumber → String) : JsValue → Option String
  | .undefined | .null => some ""
  | .bool b => some (if b then "true" else "false")
  | .num x => some (numberText x)
  | .str s => some s
  | .arr xs => joinOf numberText xs
  | .obj fields => if (fields.map (·.1)).contains "toString" then none else some "[object Object]"

end

mutual

/-- `JSON.parse(JSON.stringify(value))`: entries that are `undefined` are gone, an `undefined`
    element and a number that is not finite read as `null`. -/
def throughText : JsValue → JsValue
  | .num x => if x.isFinite then .num x else .null
  | .arr xs => .arr (throughTextList xs)
  | .obj fields => .obj (throughTextFields fields)
  | v => v

/-- The elements, where undefined comes back as null. -/
def throughTextList : List JsValue → List JsValue
  | [] => []
  | .undefined :: xs => .null :: throughTextList xs
  | x :: xs => throughText x :: throughTextList xs

/-- The fields that are not undefined. -/
def throughTextFields : List (String × JsValue) → List (String × JsValue)
  | [] => []
  | (_, .undefined) :: rest => throughTextFields rest
  | (k, v) :: rest => (k, throughText v) :: throughTextFields rest

end

@[simp] theorem get_obj (fields : List (String × JsValue)) (k : String) :
    (JsValue.obj fields).get k = lookup k fields := rfl

@[simp] theorem lookup_cons_same (k : String) (v : JsValue ν) (rest : List (String × JsValue ν)) :
    lookup k ((k, v) :: rest) = v := by simp [lookup]

theorem lookup_cons_ne {k l : String} (h : l ≠ k) (v : JsValue ν)
    (rest : List (String × JsValue ν)) : lookup k ((l, v) :: rest) = lookup k rest := by
  simp [lookup, h]

theorem lookup_of_not_mem {k : String} : ∀ {fs : List (String × JsValue ν)},
    k ∉ fs.map (·.1) → lookup k fs = .undefined
  | [], _ => rfl
  | (m, v) :: rest, h => by
      simp only [List.map_cons, List.mem_cons, not_or] at h
      rw [lookup_cons_ne (fun e => h.1 e.symm)]
      exact lookup_of_not_mem h.2

/-- A key that is listed is listed with the value it is looked up with. -/
theorem mem_of_lookup {k : String} : ∀ {fs : List (String × JsValue ν)},
    k ∈ fs.map (·.1) → (k, lookup k fs) ∈ fs
  | [], h => absurd h List.not_mem_nil
  | (l, v) :: rest, h => by
      by_cases hl : l = k
      · subst hl
        rw [lookup_cons_same]
        exact List.mem_cons_self
      · rw [lookup_cons_ne hl]
        rcases List.mem_cons.mp h with rfl | h
        · exact absurd rfl hl
        · exact List.mem_cons_of_mem _ (mem_of_lookup h)

theorem lookup_setEntry (k l : String) (v : JsValue) (fs : List (String × JsValue)) :
    lookup l (setEntry k v fs) = if k = l then v else lookup l fs := by
  induction fs with
  | nil => by_cases h : k = l <;> simp [setEntry, lookup, h]
  | cons p rest ih =>
      obtain ⟨m, w⟩ := p
      by_cases hm : m = k
      · subst hm
        by_cases h : m = l <;> simp [setEntry, lookup, h]
      · by_cases h : m = l
        · subst h
          have hk : ¬ k = m := fun e => hm e.symm
          simp [setEntry, lookup, hm, hk]
        · simp [setEntry, lookup, hm, h, ih]

/-- Writing back the value that is there changes nothing. -/
theorem setEntry_lookup {k : String} {fs : List (String × JsValue)} (h : k ∈ fs.map (·.1)) :
    setEntry k (lookup k fs) fs = fs := by
  induction fs with
  | nil => simp at h
  | cons p rest ih =>
      obtain ⟨m, x⟩ := p
      by_cases hm : m = k
      · simp [setEntry, lookup, hm]
      · simp only [List.map_cons, List.mem_cons] at h
        rcases h with h | h
        · exact absurd h.symm hm
        · simp [setEntry, lookup, hm, ih h]

/-! ## 3. Values of the language -/

mutual

/-- No object inside the value lists a key twice. -/
def proper : JsValue ν → Bool
  | .arr xs => properList xs
  | .obj fields => decide (fields.map (·.1)).Nodup && properFields fields
  | _ => true

/-- Each element is proper. -/
def properList : List (JsValue ν) → Bool
  | [] => true
  | x :: xs => proper x && properList xs

/-- Each field is proper. -/
def properFields : List (String × JsValue ν) → Bool
  | [] => true
  | (_, v) :: rest => proper v && properFields rest

end

theorem properFields_lookup {k : String} : ∀ {fs : List (String × JsValue ν)},
    properFields fs = true → proper (lookup k fs) = true
  | [], _ => rfl
  | (m, v) :: rest, h => by
      simp only [properFields, Bool.and_eq_true] at h
      by_cases hm : m = k
      · simp [lookup, hm, h.1]
      · simp only [lookup, if_neg hm]
        exact properFields_lookup h.2

/-- In a list of entries with distinct keys every entry is the one its key finds. -/
theorem lookup_of_mem {k : String} {v : JsValue ν} : ∀ {fs : List (String × JsValue ν)},
    (fs.map (·.1)).Nodup → (k, v) ∈ fs → lookup k fs = v
  | [], _, h => by simp at h
  | (m, w) :: rest, hn, h => by
      simp only [List.map_cons, List.nodup_cons] at hn
      rcases List.mem_cons.mp h with h | h
      · cases h
        simp
      · have hne : m ≠ k := by
          rintro rfl
          exact hn.1 (List.mem_map_of_mem (f := (·.1)) h)
        rw [lookup_cons_ne hne]
        exact lookup_of_mem hn.2 h

end JsValue

end Stowplan
