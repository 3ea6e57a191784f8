/-
  File:      Stowplan/Js/Plain.lean
  Subject:   VALUES THAT TEXT KEEPS.

  Text has no `undefined` and no number that is not finite. A value without either reads back
  from its text as it was.

  * `plain`: such a value; `finite`: all numbers inside are finite;
  * `throughText_of_plain`, `plain_throughText`: what text keeps, and that it leaves nothing else;
  * `loose`: a plain value or `undefined`, as a property may be.
-/
import Stowplan.Js.Value

namespace Stowplan.JsValue

/-! ## 1. The values -/

mutual

/-- Every number inside the value is finite. -/
def finite : JsValue → Bool
  | .num x => x.isFinite
  | .arr xs => finiteList xs
  | .obj fields => finiteFields fields
  | _ => true

/-- The elements of an array. -/
def finiteList : List JsValue → Bool
  | [] => true
  | x :: xs => finite x && finiteList xs

/-- The fields of an object. -/
def finiteFields : List (String × JsValue) → Bool
  | [] => true
  | (_, v) :: rest => finite v && finiteFields rest

end

mutual

/-- Every number inside the value is finite, and nothing is `undefined`. -/
def plain : JsValue → Bool
  | .undefined => false
  | .num x => x.isFinite
  | .arr xs => plainList xs
  | .obj fields => plainFields fields
  | _ => true

/-- The elements of an array. -/
def plainList : List JsValue → Bool
  | [] => true
  | x :: xs => plain x && plainList xs

/-- The fields of an object. -/
def plainFields : List (String × JsValue) → Bool
  | [] => true
  | (_, v) :: rest => plain v && plainFields rest

end

/-- A plain value, or none. -/
def loose (v : JsValue) : Bool := decide (v = .undefined) || plain v

theorem loose_iff {v : JsValue} : loose v = true ↔ v = .undefined ∨ plain v = true := by
  simp [loose]

theorem loose_of_plain {v : JsValue} (h : plain v = true) : loose v = true :=
  loose_iff.mpr (.inr h)

theorem ne_undefined_of_plain {v : JsValue} (h : plain v = true) : v ≠ .undefined := by
  rintro rfl
  cases h

theorem plainList_iff {xs : List JsValue} : plainList xs = true ↔ ∀ x ∈ xs, plain x = true := by
  induction xs with
  | nil => simp [plainList]
  | cons x xs ih => simp [plainList, ih]

theorem finiteList_iff {xs : List JsValue} :
    finiteList xs = true ↔ ∀ x ∈ xs, finite x = true := by
  induction xs with
  | nil => simp [finiteList]
  | cons x xs ih => simp [finiteList, ih]

theorem plainFields_iff {fs : List (String × JsValue)} :
    plainFields fs = true ↔ ∀ p ∈ fs, plain p.2 = true := by
  induction fs with
  | nil => simp [plainFields]
  | cons p fs ih => simp [plainFields, ih]

theorem finiteFields_iff {fs : List (String × JsValue)} :
    finiteFields fs = true ↔ ∀ p ∈ fs, finite p.2 = true := by
  induction fs with
  | nil => simp [finiteFields]
  | cons p fs ih => simp [finiteFields, ih]

mutual

theorem finite_of_plain : ∀ {v : JsValue}, plain v = true → finite v = true
  | .undefined, _ | .null, _ | .bool _, _ | .str _, _ => rfl
  | .num _, h => h
  | .arr _, h => finiteList_of_plain h
  | .obj _, h => finiteFields_of_plain h

theorem finiteList_of_plain : ∀ {xs : List JsValue}, plainList xs = true → finiteList xs = true
  | [], _ => rfl
  | _ :: _, h => by
      simp only [plainList, Bool.and_eq_true] at h
      simp only [finiteList, Bool.and_eq_true]
      exact ⟨finite_of_plain h.1, finiteList_of_plain h.2⟩

theorem finiteFields_of_plain : ∀ {fs : List (String × JsValue)},
    plainFields fs = true → finiteFields fs = true
  | [], _ => rfl
  | (_, _) :: _, h => by
      simp only [plainFields, Bool.and_eq_true] at h
      simp only [finiteFields, Bool.and_eq_true]
      exact ⟨finite_of_plain h.1, finiteFields_of_plain h.2⟩

end

/-! ## 2. Text -/

theorem throughTextList_cons {x : JsValue} (h : x ≠ .undefined) (xs : List JsValue) :
    throughTextList (x :: xs) = throughText x :: throughTextList xs := by
  cases x <;> first | rfl | exact absurd rfl h

theorem throughTextFields_cons {v : JsValue} (h : v ≠ .undefined) (k : String)
    (fs : List (String × JsValue)) :
    throughTextFields ((k, v) :: fs) = (k, throughText v) :: throughTextFields fs := by
  cases v <;> first | rfl | exact absurd rfl h

mutual

/-- **A plain value reads back from its text as it was.** -/
theorem throughText_of_plain : ∀ {v : JsValue}, plain v = true → throughText v = v
  | .null, _ | .bool _, _ | .str _, _ => rfl
  | .num _, h => if_pos h
  | .arr _, h => congrArg JsValue.arr (throughTextList_of_plain h)
  | .obj _, h => congrArg JsValue.obj (throughTextFields_of_plain h)

theorem throughTextList_of_plain : ∀ {xs : List JsValue},
    plainList xs = true → throughTextList xs = xs
  | [], _ => rfl
  | x :: xs, h => by
      simp only [plainList, Bool.and_eq_true] at h
      rw [throughTextList_cons (ne_undefined_of_plain h.1), throughText_of_plain h.1,
        throughTextList_of_plain h.2]

theorem throughTextFields_of_plain : ∀ {fs : List (String × JsValue)},
    plainFields fs = true → throughTextFields fs = fs
  | [], _ => rfl
  | (k, v) :: fs, h => by
      simp only [plainFields, Bool.and_eq_true] at h
      rw [throughTextFields_cons (ne_undefined_of_plain h.1), throughText_of_plain h.1,
        throughTextFields_of_plain h.2]

end

mutual

/-- **What was read from text is plain.** -/
theorem plain_throughText : ∀ {v : JsValue}, v ≠ .undefined → plain (throughText v) = true
  | .undefined, h => absurd rfl h
  | .null, _ | .bool _, _ | .str _, _ => rfl
  | .num x, _ => by
      by_cases hx : x.isFinite = true
      · rw [throughText, if_pos hx]
        exact hx
      · rw [throughText, if_neg hx]
        rfl
  | .arr xs, _ => plain_throughTextList xs
  | .obj fs, _ => plain_throughTextFields fs

theorem plain_throughTextList : ∀ xs : List JsValue, plainList (throughTextList xs) = true
  | [] => rfl
  | x :: xs => by
      by_cases hx : x = .undefined
      · subst hx
        exact plain_throughTextList xs
      · rw [throughTextList_cons hx, plainList, plain_throughText hx, plain_throughTextList xs]
        rfl

theorem plain_throughTextFields : ∀ fs : List (String × JsValue),
    plainFields (throughTextFields fs) = true
  | [] => rfl
  | (k, v) :: fs => by
      by_cases hv : v = .undefined
      · subst hv
        exact plain_throughTextFields fs
      · rw [throughTextFields_cons hv, plainFields, plain_throughText hv,
          plain_throughTextFields fs]
        rfl

end

/-! ## 3. Properties and elements -/

theorem plainFields_lookup {k : String} {fs : List (String × JsValue)}
    (h : plainFields fs = true) : loose (lookup k fs) = true := by
  induction fs with
  | nil => rfl
  | cons p fs ih =>
      obtain ⟨l, v⟩ := p
      simp only [plainFields, Bool.and_eq_true] at h
      unfold lookup
      split
      · exact loose_of_plain h.1
      · exact ih h.2

theorem finiteFields_lookup {k : String} {fs : List (String × JsValue)}
    (h : finiteFields fs = true) : finite (lookup k fs) = true := by
  induction fs with
  | nil => rfl
  | cons p fs ih =>
      obtain ⟨l, v⟩ := p
      simp only [finiteFields, Bool.and_eq_true] at h
      unfold lookup
      split
      · exact h.1
      · exact ih h.2

theorem loose_get {v : JsValue} (h : plain v = true) (k : String) : loose (v.get k) = true := by
  cases v with
  | obj fs => exact plainFields_lookup h
  | _ => rfl

theorem finite_get {v : JsValue} (h : finite v = true) (k : String) :
    finite (v.get k) = true := by
  cases v with
  | obj fs => exact finiteFields_lookup h
  | _ => rfl

theorem plainFields_setEntry {k : String} {v : JsValue} {fs : List (String × JsValue)}
    (h : plainFields fs = true) (hv : plain v = true) : plainFields (setEntry k v fs) = true := by
  induction fs with
  | nil => simp [setEntry, plainFields, hv]
  | cons p fs ih =>
      obtain ⟨l, w⟩ := p
      simp only [plainFields, Bool.and_eq_true] at h
      unfold setEntry
      split
      · simp only [plainFields, hv, h.2, Bool.and_self]
      · simp only [plainFields, h.1, ih h.2, Bool.and_self]

theorem finiteFields_setEntry {k : String} {v : JsValue} {fs : List (String × JsValue)}
    (h : finiteFields fs = true) (hv : finite v = true) :
    finiteFields (setEntry k v fs) = true := by
  induction fs with
  | nil => simp [setEntry, finiteFields, hv]
  | cons p fs ih =>
      obtain ⟨l, w⟩ := p
      simp only [finiteFields, Bool.and_eq_true] at h
      unfold setEntry
      split
      · simp only [finiteFields, hv, h.2, Bool.and_self]
      · simp only [finiteFields, h.1, ih h.2, Bool.and_self]

theorem plain_setKey {v w : JsValue} (h : plain v = true) (hw : plain w = true) (k : String) :
    plain (v.setKey k w) = true := by
  cases v with
  | obj fs => exact plainFields_setEntry h hw
  | _ => exact h

theorem finite_setKey {v w : JsValue} (h : finite v = true) (hw : finite w = true)
    (k : String) : finite (v.setKey k w) = true := by
  cases v with
  | obj fs => exact finiteFields_setEntry h hw
  | _ => exact h

theorem plain_delKey {v : JsValue} (h : plain v = true) (k : String) :
    plain (v.delKey k) = true := by
  cases v with
  | obj fs => exact plainFields_iff.mpr fun p hp =>
      plainFields_iff.mp h p (List.mem_filter.mp hp).1
  | _ => exact h

theorem finite_delKey {v : JsValue} (h : finite v = true) (k : String) :
    finite (v.delKey k) = true := by
  cases v with
  | obj fs => exact finiteFields_iff.mpr fun p hp =>
      finiteFields_iff.mp h p (List.mem_filter.mp hp).1
  | _ => exact h

/-- An own property of a plain value is plain. -/
theorem plain_get {v : JsValue} (h : plain v = true) {k : String} (hk : v.hasOwn k = true) :
    plain (v.get k) = true := by
  cases v with
  | obj fs =>
      obtain ⟨⟨l, w⟩, hp, rfl⟩ := List.mem_map.mp (List.contains_iff_mem.mp hk)
      have : ∀ {fs : List (String × JsValue)}, plainFields fs = true → l ∈ fs.map (·.1) →
          plain (lookup l fs) = true := by
        intro fs
        induction fs with
        | nil => exact fun _ hl => absurd hl List.not_mem_nil
        | cons p fs ih =>
            obtain ⟨m, u⟩ := p
            intro h hl
            simp only [plainFields, Bool.and_eq_true] at h
            unfold lookup
            by_cases hm : m = l
            · rw [if_pos hm]
              exact h.1
            · rw [if_neg hm]
              exact ih h.2 ((List.mem_cons.mp hl).resolve_left fun e => hm e.symm)
      exact this h (List.mem_map_of_mem hp)
  | _ => cases hk

end Stowplan.JsValue
