/-
  File:      Stowplan/Client/ConflictReview.lean
  Subject:   WHAT TWO VALUES HAVE TO DO WITH EACH OTHER: the comparison of the engine (`equal`)
  and that of the review screen (`sameValue` of conflict-review.ts), against what the values
  mean.

  * `spelling`: a value as it is written, without the order of its keys;
  * `meaning`: the value that is denoted: a field that is `undefined` is one that is not there, and
    a zero has no sign;
  * `sameValue_iff`: the review screen compares spellings;
  * `equal_iff`: the engine compares the left value with the right one read through the left
    (`unpacked`): where an object faces an array, the array counts as the object of its positions;
  * **`equal_means`**: so the two agree, with each other and with the meaning, exactly on the pairs
    where that reading makes no values alike and that are not one value in two spellings.
-/
import Stowplan.Domain.Equal

namespace Stowplan

open JsValue

variable {ν : Type}

/-! ## 1. The meaning of a value -/

/-- A value as such: a list of values, or a value under every key, most of them absent. -/
inductive Meaning (ν : Type) where
  | absent
  | undefined
  | null
  | bool (b : Bool)
  | num (x : ν)
  | str (s : String)
  | arr (xs : List (Meaning ν))
  | obj (fields : String → Meaning ν)

mutual

/-- How a value is written, its keys in no order. -/
def spelling : JsValue ν → Meaning ν
  | .undefined => .undefined
  | .null => .null
  | .bool b => .bool b
  | .num x => .num x
  | .str s => .str s
  | .arr xs => .arr (spellings xs)
  | .obj fields => .obj (spellingAt fields)

/-- The meanings of the elements of an array. -/
def spellings : List (JsValue ν) → List (Meaning ν)
  | [] => []
  | x :: xs => spelling x :: spellings xs

/-- What an object means at a key: an absent field and an undefined one mean the same. -/
def spellingAt : List (String × JsValue ν) → String → Meaning ν
  | [], _ => .absent
  | (l, v) :: rest, k => if l = k then spelling v else spellingAt rest k

end

mutual

/-- What is denoted by what is written: an undefined field is absent, and a zero has no sign. -/
def Meaning.denoted : Meaning SignedNumber → Meaning JsNumber
  | .absent | .undefined => .absent
  | .null => .null
  | .bool b => .bool b
  | .num x => .num x.value
  | .str s => .str s
  | .arr xs => .arr (denotedList xs)
  | .obj fields => .obj fun k => (fields k).denoted

/-- The elements with the sign of zero forgotten. -/
def Meaning.denotedList : List (Meaning SignedNumber) → List (Meaning JsNumber)
  | [] => []
  | x :: xs => x.denoted :: denotedList xs

end

/-- What a value means. -/
def meaning (v : JsValue SignedNumber) : Meaning JsNumber := (spelling v).denoted

theorem spellings_eq_map (xs : List (JsValue ν)) : spellings xs = xs.map spelling := by
  induction xs with
  | nil => rfl
  | cons x xs ih => rw [spellings, ih, List.map_cons]

theorem spelling_ne_absent (v : JsValue ν) : spelling v ≠ .absent := by
  cases v <;> simp [spelling]

theorem spellingAt_of_mem {fields : List (String × JsValue ν)} {k : String}
    (h : k ∈ fields.map (·.1)) : spellingAt fields k = spelling (lookup k fields) := by
  induction fields with
  | nil => exact absurd h List.not_mem_nil
  | cons p rest ih =>
      obtain ⟨l, v⟩ := p
      by_cases hl : l = k
      · rw [spellingAt, if_pos hl, hl, lookup_cons_same]
      · rw [spellingAt, if_neg hl, lookup_cons_ne hl]
        exact ih ((List.mem_cons.mp h).resolve_left (Ne.symm hl))

theorem spellingAt_absent {fields : List (String × JsValue ν)} {k : String} :
    spellingAt fields k = .absent ↔ k ∉ fields.map (·.1) := by
  constructor
  · intro h hk
    rw [spellingAt_of_mem hk] at h
    exact spelling_ne_absent _ h
  · intro h
    induction fields with
    | nil => rfl
    | cons p rest ih =>
        obtain ⟨l, v⟩ := p
        rw [List.map_cons, List.mem_cons, not_or] at h
        rw [spellingAt, if_neg (Ne.symm h.1), ih h.2]

/-- Objects are spelled alike when they show the same under every key. -/
theorem spelling_obj {a b : List (String × JsValue ν)} :
    spelling (.obj a) = spelling (.obj b) ↔ ∀ k, spellingAt a k = spellingAt b k := by
  rw [spelling, spelling, Meaning.obj.injEq, funext_iff]

/-- Objects are spelled alike when they have the same keys, with values spelled alike. -/
theorem spelling_fields {a b : List (String × JsValue ν)} :
    spelling (.obj a) = spelling (.obj b) ↔ (∀ k, k ∈ a.map (·.1) ↔ k ∈ b.map (·.1)) ∧
      ∀ k ∈ a.map (·.1), spelling (lookup k a) = spelling (lookup k b) := by
  rw [spelling_obj]
  constructor
  · intro h
    have hkeys : ∀ k, k ∈ a.map (·.1) ↔ k ∈ b.map (·.1) := by
      intro k
      rw [← not_iff_not, ← spellingAt_absent, ← spellingAt_absent, h k]
    refine ⟨hkeys, fun k hk => ?_⟩
    rw [← spellingAt_of_mem hk, ← spellingAt_of_mem ((hkeys k).mp hk), h k]
  · rintro ⟨hkeys, h⟩ k
    by_cases hk : k ∈ a.map (·.1)
    · rw [spellingAt_of_mem hk, spellingAt_of_mem ((hkeys k).mp hk), h k hk]
    · rw [spellingAt_absent.mpr hk, spellingAt_absent.mpr fun hb => hk ((hkeys k).mpr hb)]

theorem spelling_arr {a b : List (JsValue ν)} :
    spelling (.arr a) = spelling (.arr b) ↔ a.map spelling = b.map spelling := by
  rw [spelling, spelling, Meaning.arr.injEq, spellings_eq_map, spellings_eq_map]

/-- What holds of a value once it holds of all values inside holds of every value. -/
theorem JsValue.inside {P : JsValue ν → Prop}
    (leaf : ∀ v, v.isArray = false → v.isRecord = false → P v)
    (arr : ∀ xs, (∀ x ∈ xs, P x) → P (.arr xs))
    (obj : ∀ fs, (∀ p ∈ fs, P p.2) → P (.obj fs)) : ∀ v, P v
  | .undefined | .null | .bool _ | .num _ | .str _ => leaf _ rfl rfl
  | .arr xs => arr xs (insideList xs)
  | .obj fs => obj fs (insideFields fs)
where
  insideList : ∀ xs : List (JsValue ν), ∀ x ∈ xs, P x
    | [] => fun _ h => absurd h List.not_mem_nil
    | y :: ys => List.forall_mem_cons.mpr ⟨JsValue.inside leaf arr obj y, insideList ys⟩
  insideFields : ∀ fs : List (String × JsValue ν), ∀ p ∈ fs, P p.2
    | [] => fun _ h => absurd h List.not_mem_nil
    | (_, v) :: rest =>
        List.forall_mem_cons.mpr ⟨JsValue.inside leaf arr obj v, insideFields rest⟩

/-! ## 2. Values and their entries -/

theorem properList_iff {xs : List (JsValue ν)} :
    properList xs = true ↔ ∀ x ∈ xs, proper x = true := by
  induction xs with
  | nil => simp [properList]
  | cons x xs ih => simp [properList, ih]

theorem properFields_iff {fs : List (String × JsValue ν)} :
    properFields fs = true ↔ ∀ p ∈ fs, proper p.2 = true := by
  induction fs with
  | nil => simp [properFields]
  | cons p fs ih => simp [properFields, ih]

/-- The entries of an object or an array: distinct keys, and a value of the language under each. -/
structure Listed (es : List (String × JsValue ν)) : Prop where
  nodup : (es.map (·.1)).Nodup
  proper : ∀ p ∈ es, proper p.2 = true

theorem proper_elements {xs : List (JsValue ν)} (h : proper (.arr xs) = true) :
    ∀ x ∈ xs, proper x = true := by
  rw [proper] at h
  exact properList_iff.mp h

theorem toString_injective : Function.Injective (toString : Nat → String) := by
  intro m n h
  rw [Nat.toString_eq_ofList_toDigits, Nat.toString_eq_ofList_toDigits] at h
  have h := congrArg String.toList h
  rw [String.toList_ofList, String.toList_ofList] at h
  rw [← Nat.ofDigitChars_ten_toDigits (n := m), h, Nat.ofDigitChars_ten_toDigits]

theorem mem_positions {xs : List (JsValue ν)} {p : String × JsValue ν}
    (h : p ∈ ownEntries (.arr xs)) : p.2 ∈ xs := by
  obtain ⟨q, hq, rfl⟩ := List.mem_map.mp h
  exact (List.mem_zipIdx' hq).2 ▸ List.getElem_mem _

theorem keys_positions (xs : List (JsValue ν)) :
    (ownEntries (.arr xs)).map (·.1) = (List.range' 0 xs.length).map toString := by
  unfold ownEntries
  rw [List.map_map, ← List.zipIdx_map_snd 0 xs, List.map_map]
  rfl

theorem listed_of_proper {v : JsValue ν} (h : proper v = true) : Listed (ownEntries v) := by
  cases v with
  | obj fs =>
    simp only [JsValue.proper, Bool.and_eq_true, decide_eq_true_eq] at h
    exact ⟨h.1, properFields_iff.mp h.2⟩
  | arr xs =>
    refine ⟨?_, fun p hp => proper_elements h _ (mem_positions hp)⟩
    rw [keys_positions]
    exact (List.nodup_range' ..).map toString_injective
  | _ => exact ⟨List.nodup_nil, fun p hp => absurd hp List.not_mem_nil⟩

theorem Listed.proper_lookup {es : List (String × JsValue ν)} (h : Listed es) (k : String) :
    JsValue.proper (lookup k es) = true := properFields_lookup (properFields_iff.mpr h.proper)

/-- What is asked of the entries is asked of the keys. -/
theorem Listed.forall_iff {es : List (String × JsValue ν)} (h : Listed es)
    {P : String → JsValue ν → Prop} :
    (∀ p ∈ es, P p.1 p.2) ↔ ∀ k ∈ es.map (·.1), P k (lookup k es) := by
  constructor
  · intro hp k hk
    exact hp _ (mem_of_lookup hk)
  · intro hp p hm
    have := hp p.1 (List.mem_map_of_mem hm)
    rwa [lookup_of_mem h.nodup hm] at this

/-- Entries with distinct keys are spelled alike when the keys are the same and the values under
    each spelled alike. -/
theorem spelling_entries {a b : List (String × JsValue ν)} (ha : Listed a)
    (hb : (b.map (·.1)).Nodup) :
    spelling (.obj a) = spelling (.obj b) ↔ (a.map (·.1)).Perm (b.map (·.1)) ∧
      ∀ p ∈ a, spelling p.2 = spelling (lookup p.1 b) := by
  rw [spelling_fields, List.perm_ext_iff_of_nodup ha.nodup hb,
    ha.forall_iff (P := fun k v => spelling v = spelling (lookup k b))]

/-! ## 3. The review screen -/

section Review

variable [DecidableEq ν]

mutual

/-- `sameValue(left, right)`; equality of the numbers is `Object.is`. -/
def sameValue : JsValue ν → JsValue ν → Bool
  | .undefined, .undefined | .null, .null => true
  | .bool a, .bool b => a == b
  | .num a, .num b => decide (a = b)
  | .str a, .str b => a == b
  | .arr a, .arr b => sameElems a b
  | .obj a, .obj b => decide (a.length = b.length) && sameEntries a b
  | _, _ => false

/-- Elements one by one. -/
def sameElems : List (JsValue ν) → List (JsValue ν) → Bool
  | [], [] => true
  | x :: xs, y :: ys => sameValue x y && sameElems xs ys
  | _, _ => false

/-- Every key on the left is one on the right, with the same value. -/
def sameEntries : List (String × JsValue ν) → List (String × JsValue ν) → Bool
  | [], _ => true
  | (k, v) :: rest, right =>
      ((right.map (·.1)).contains k && sameValue v (lookup k right)) && sameEntries rest right

end

theorem sameEntries_iff {a b : List (String × JsValue ν)} :
    sameEntries a b = true ↔
      ∀ p ∈ a, p.1 ∈ b.map (·.1) ∧ sameValue p.2 (lookup p.1 b) = true := by
  induction a with
  | nil => simp [sameEntries]
  | cons p a ih =>
      obtain ⟨k, v⟩ := p
      rw [sameEntries, Bool.and_eq_true, ih, List.forall_mem_cons, Bool.and_eq_true,
        List.contains_iff_mem]

omit [DecidableEq ν] in
/-- Keys all found on the other side, in lists of one length, are the same keys. -/
theorem perm_of_keys {a b : List (String × JsValue ν)} (ha : Listed a) :
    (a.length = b.length ∧ ∀ p ∈ a, p.1 ∈ b.map (·.1)) ↔
      (a.map (·.1)).Perm (b.map (·.1)) := by
  constructor
  · rintro ⟨hlen, hsub⟩
    have hs : a.map (·.1) ⊆ b.map (·.1) := by
      intro k hk
      obtain ⟨p, hp, rfl⟩ := List.mem_map.mp hk
      exact hsub p hp
    refine (List.subperm_of_subset ha.nodup hs).perm_of_length_le ?_
    rw [List.length_map, List.length_map, hlen]
  · intro h
    have hlen := h.length_eq
    rw [List.length_map, List.length_map] at hlen
    exact ⟨hlen, fun p hp => h.subset (List.mem_map_of_mem hp)⟩

theorem sameElems_iff {a : List (JsValue ν)}
    (ih : ∀ x ∈ a, ∀ y, proper x = true → proper y = true →
      (sameValue x y = true ↔ spelling x = spelling y)) :
    ∀ {b : List (JsValue ν)}, (∀ x ∈ a, proper x = true) → (∀ y ∈ b, proper y = true) →
      (sameElems a b = true ↔ a.map spelling = b.map spelling) := by
  induction a with
  | nil =>
      intro b _ _
      cases b <;> simp [sameElems]
  | cons x a ih' =>
      intro b ha hb
      rw [List.forall_mem_cons] at ih ha
      cases b with
      | nil => simp [sameElems]
      | cons y b =>
          rw [List.forall_mem_cons] at hb
          rw [sameElems, Bool.and_eq_true, ih.1 y ha.1 hb.1, ih' ih.2 ha.2 hb.2, List.map_cons,
            List.map_cons, List.cons.injEq]

/-- **The review screen compares spellings.** -/
theorem sameValue_iff (a : JsValue ν) : ∀ b, proper a = true → proper b = true →
    (sameValue a b = true ↔ spelling a = spelling b) := by
  induction a using JsValue.inside with
  | leaf v harr hrec =>
      intro b _ _
      cases v with
      | arr xs => cases harr
      | obj fs => cases hrec
      | _ => cases b <;> simp [sameValue, spelling]
  | arr xs ih =>
      intro b ha hb
      cases b with
      | arr ys =>
        rw [sameValue, spelling_arr]
        exact sameElems_iff ih (proper_elements ha) (proper_elements hb)
      | _ => simp [sameValue, spelling]
  | obj fs ih =>
      intro b ha hb
      cases b with
      | obj gs =>
        have hfs : Listed fs := listed_of_proper ha
        have hgs : Listed gs := listed_of_proper hb
        rw [spelling_entries hfs hgs.nodup, ← perm_of_keys hfs, sameValue, Bool.and_eq_true,
          decide_eq_true_eq, sameEntries_iff, and_assoc, ← forall₂_and]
        refine and_congr_right fun _ => forall₂_congr fun p hp => and_congr_right fun _ => ?_
        exact ih p hp _ (hfs.proper p hp) (hgs.proper_lookup p.1)
      | _ => simp [sameValue, spelling]

end Review

/-! ## 4. The engine -/

mutual

/-- The right value as the engine reads it beside the left one: an array that faces an object is
    the object of its positions. -/
def unpacked : JsValue ν → JsValue ν → JsValue ν
  | .arr xs, .arr ys => .arr (unpackedList xs ys)
  | .obj fs, .obj gs => .obj (unpackedFields fs gs)
  | .obj fs, .arr ys => .obj (unpackedItems fs 0 ys)
  | _, b => b
termination_by structural _ b => b

/-- Each element shown against the one at its position. -/
def unpackedList : List (JsValue ν) → List (JsValue ν) → List (JsValue ν)
  | x :: xs, y :: ys => unpacked x y :: unpackedList xs ys
  | _, ys => ys
termination_by structural _ ys => ys

/-- Each field shown against the one with its key. -/
def unpackedFields (fs : List (String × JsValue ν)) :
    List (String × JsValue ν) → List (String × JsValue ν)
  | [] => []
  | (k, w) :: rest => (k, unpacked (lookup k fs) w) :: unpackedFields fs rest
termination_by structural gs => gs

/-- The elements of an array shown against the fields an object has at their positions. -/
def unpackedItems (fs : List (String × JsValue ν)) :
    Nat → List (JsValue ν) → List (String × JsValue ν)
  | _, [] => []
  | n, y :: ys =>
      (toString n, unpacked (lookup (toString n) fs) y) :: unpackedItems fs (n + 1) ys
termination_by structural _ ys => ys

end

theorem unpackedItems_eq (fs : List (String × JsValue ν)) (n : Nat) (ys : List (JsValue ν)) :
    unpackedItems fs n ys = unpackedFields fs ((ys.zipIdx n).map fun p => (toString p.2, p.1)) := by
  induction ys generalizing n with
  | nil => rfl
  | cons y ys ih => rw [unpackedItems, ih, List.zipIdx_cons, List.map_cons, unpackedFields]

theorem unpacked_undefined (a : JsValue ν) : unpacked a .undefined = .undefined := by
  cases a <;> rfl

theorem lookup_unpackedFields (fs gs : List (String × JsValue ν)) (k : String) :
    lookup k (unpackedFields fs gs) = unpacked (lookup k fs) (lookup k gs) := by
  induction gs with
  | nil => exact (unpacked_undefined _).symm
  | cons p gs ih =>
      obtain ⟨l, w⟩ := p
      by_cases h : l = k
      · subst h
        rw [unpackedFields, lookup_cons_same, lookup_cons_same]
      · rw [unpackedFields, lookup_cons_ne h, lookup_cons_ne h, ih]

theorem keys_unpackedFields (fs gs : List (String × JsValue ν)) :
    (unpackedFields fs gs).map (·.1) = gs.map (·.1) := by
  induction gs with
  | nil => rfl
  | cons p gs ih => rw [unpackedFields, List.map_cons, List.map_cons, ih]

theorem unpacked_obj {fs : List (String × JsValue ν)} {b : JsValue ν}
    (h : b.isRecord = true ∨ b.isArray = true) :
    unpacked (.obj fs) b = .obj (unpackedFields fs (ownEntries b)) := by
  cases b with
  | obj gs => rfl
  | arr ys => rw [unpacked, unpackedItems_eq]; rfl
  | _ => simp [isRecord, isArray] at h

section Engine

variable [DecidableEq ν]

/-- Whether an object compares equal to what it faces is asked of the keys and of the values. -/
theorem equal_obj {fs : List (String × JsValue ν)} {b : JsValue ν} :
    equal (.obj fs) b = true ↔ (b.isRecord = true ∨ b.isArray = true) ∧
      (fs.map (·.1)).Perm ((ownEntries b).map (·.1)) ∧
        ∀ p ∈ fs, equal p.2 (lookup p.1 (ownEntries b)) = true := by
  have hentries : ∀ a r : List (String × JsValue ν), equalEntries a r = true ↔
      ∀ p ∈ a, equal p.2 (lookup p.1 r) = true := by
    intro a r
    induction a with
    | nil => simp [equalEntries]
    | cons p a ih =>
        obtain ⟨k, v⟩ := p
        rw [equalEntries, Bool.and_eq_true, ih, List.forall_mem_cons]
  cases b <;>
    simp [equal, isRecord, isArray, ownEntries, sortStrings_eq_iff, hentries]

theorem equalElems_iff {a : List (JsValue ν)}
    (ih : ∀ x ∈ a, ∀ y, proper x = true → proper y = true →
      (equal x y = true ↔ spelling x = spelling (unpacked x y))) :
    ∀ {b : List (JsValue ν)}, (∀ x ∈ a, proper x = true) → (∀ y ∈ b, proper y = true) →
      (equalElems a b = true ↔ a.map spelling = (unpackedList a b).map spelling) := by
  induction a with
  | nil =>
      intro b _ _
      cases b <;> simp [equalElems, unpackedList]
  | cons x a ih' =>
      intro b ha hb
      rw [List.forall_mem_cons] at ih ha
      cases b with
      | nil => simp [equalElems, unpackedList]
      | cons y b =>
          rw [List.forall_mem_cons] at hb
          rw [equalElems, Bool.and_eq_true, ih.1 y ha.1 hb.1, ih' ih.2 ha.2 hb.2, unpackedList,
            List.map_cons, List.map_cons, List.cons.injEq]

/-- **The engine compares the left value with the right one read through the left.** -/
theorem equal_iff (a : JsValue ν) : ∀ b, proper a = true → proper b = true →
    (equal a b = true ↔ spelling a = spelling (unpacked a b)) := by
  induction a using JsValue.inside with
  | leaf v harr hrec =>
      intro b _ _
      cases v with
      | arr xs => cases harr
      | obj fs => cases hrec
      | _ => cases b <;> simp [equal, unpacked, spelling]
  | arr xs ih =>
      intro b ha hb
      cases b with
      | arr ys =>
        rw [equal, unpacked, spelling_arr]
        exact equalElems_iff ih (proper_elements ha) (proper_elements hb)
      | _ => simp [equal, unpacked, spelling]
  | obj fs ih =>
      intro b ha hb
      by_cases hrec : b.isRecord = true ∨ b.isArray = true
      · have hfs : Listed fs := listed_of_proper ha
        have hgs : Listed (ownEntries b) := listed_of_proper hb
        have hkeys := keys_unpackedFields fs (ownEntries b)
        rw [equal_obj, unpacked_obj hrec, spelling_entries hfs (hkeys ▸ hgs.nodup), hkeys,
          and_iff_right hrec]
        refine and_congr_right fun _ => forall₂_congr fun p hp => ?_
        rw [lookup_unpackedFields, lookup_of_mem hfs.nodup hp]
        exact ih p hp _ (hfs.proper p hp) (hgs.proper_lookup p.1)
      · rw [equal_obj]
        refine iff_of_false (fun h => hrec h.1) ?_
        cases b with
        | obj gs => exact absurd (.inl rfl) hrec
        | arr ys => exact absurd (.inr rfl) hrec
        | _ => simp [unpacked, spelling]

omit [DecidableEq ν] in
theorem unpackedList_same {xs : List (JsValue ν)}
    (ih : ∀ x ∈ xs, ∀ y, spelling x = spelling y → spelling x = spelling (unpacked x y)) :
    ∀ {ys : List (JsValue ν)}, xs.map spelling = ys.map spelling →
      xs.map spelling = (unpackedList xs ys).map spelling := by
  induction xs with
  | nil =>
      intro ys h
      rwa [unpackedList]
      simp
  | cons x xs ih' =>
      intro ys h
      rw [List.forall_mem_cons] at ih
      cases ys with
      | nil => exact h
      | cons y ys =>
          rw [List.map_cons, List.map_cons, List.cons.injEq] at h
          rw [unpackedList, List.map_cons, List.map_cons, ← ih.1 y h.1, ← ih' ih.2 h.2]

omit [DecidableEq ν] in
/-- Values that are spelled alike are not read otherwise beside each other. -/
theorem unpacked_same (a : JsValue ν) :
    ∀ b, spelling a = spelling b → spelling a = spelling (unpacked a b) := by
  induction a using JsValue.inside with
  | leaf v harr hrec =>
      intro b h
      cases v with
      | arr xs => cases harr
      | obj fs => cases hrec
      | _ => simpa [unpacked] using h
  | arr xs ih =>
      intro b h
      cases b with
      | arr ys =>
        rw [unpacked, spelling_arr]
        exact unpackedList_same ih (spelling_arr.mp h)
      | _ => simp [spelling] at h
  | obj fs ih =>
      intro b h
      cases b with
      | obj gs =>
        obtain ⟨hkeys, h⟩ := spelling_fields.mp h
        rw [unpacked, spelling_fields, keys_unpackedFields]
        refine ⟨hkeys, fun k hk => ?_⟩
        rw [lookup_unpackedFields]
        exact ih _ (mem_of_lookup hk) _ (h k hk)
      | _ => simp [spelling] at h

/-! ## 5. Comparing twice -/

theorem equalElems_forall₂ {a b : List (JsValue ν)} :
    equalElems a b = true ↔ List.Forall₂ (fun x y => equal x y = true) a b := by
  induction a generalizing b with
  | nil => cases b <;> simp [equalElems]
  | cons x a ih =>
      cases b with
      | nil => simp [equalElems]
      | cons y b => rw [equalElems, Bool.and_eq_true, ih, List.forall₂_cons]

/-- What an array equals, the object of its positions equals. -/
theorem equal_positions {ys : List (JsValue ν)} {c : JsValue ν} (hc : proper c = true)
    (h : equal (.arr ys) c = true) : equal (.obj (ownEntries (.arr ys))) c = true := by
  cases c with
  | arr zs =>
    have h2 : List.Forall₂ (fun x y => equal x y = true) ys zs :=
      equalElems_forall₂.mp (by simpa only [equal] using h)
    have hlen := h2.length_eq
    rw [equal_obj]
    refine ⟨.inr rfl, ?_, fun p hp => ?_⟩
    · rw [keys_positions, keys_positions, hlen]
    · obtain ⟨⟨y, i⟩, hq, rfl⟩ := List.mem_map.mp hp
      obtain ⟨hi, hy⟩ := List.mem_zipIdx' hq
      have hz : (toString i, zs[i]) ∈ ownEntries (.arr zs) :=
        List.mem_map.mpr ⟨(zs[i], i), List.mk_mem_zipIdx_iff_getElem?.mpr
          (List.getElem?_eq_getElem _), rfl⟩
      show equal y (lookup (toString i) _) = true
      rw [lookup_of_mem (listed_of_proper hc).nodup hz, hy]
      exact h2.get hi (hlen ▸ hi)
  | _ => simp [equal] at h

theorem forall₂_trans_of_mem {α : Type} {R : α → α → Prop} {xs ys zs : List α}
    (hxy : List.Forall₂ R xs ys) (hyz : List.Forall₂ R ys zs)
    (h : ∀ x ∈ xs, ∀ y ∈ ys, ∀ z ∈ zs, R x y → R y z → R x z) : List.Forall₂ R xs zs := by
  induction hxy generalizing zs with
  | nil => exact hyz
  | cons hr _ ih =>
      obtain _ | ⟨hr', hyz⟩ := hyz
      refine .cons (h _ List.mem_cons_self _ List.mem_cons_self _ List.mem_cons_self hr hr') ?_
      exact ih hyz fun x hx y hy z hz => h x (List.mem_cons_of_mem _ hx) y
        (List.mem_cons_of_mem _ hy) z (List.mem_cons_of_mem _ hz)

/-- **The engine's comparison is transitive.** -/
theorem equal_trans (a : JsValue ν) : ∀ b c, proper a = true → proper b = true →
    proper c = true → equal a b = true → equal b c = true → equal a c = true := by
  induction a using JsValue.inside with
  | leaf v harr hrec =>
      intro b c _ _ _ hab hbc
      have hb : b = v := by
        cases v with
        | arr xs => cases harr
        | obj fs => cases hrec
        | _ => cases b <;> simp_all [equal]
      rwa [hb] at hbc
  | arr xs ih =>
      intro b c ha hb hc hab hbc
      cases b with
      | arr ys =>
        cases c with
        | arr zs =>
          rw [equal, equalElems_forall₂] at hab hbc ⊢
          exact forall₂_trans_of_mem hab hbc fun x hx y hy z hz =>
            ih x hx y z (proper_elements ha x hx) (proper_elements hb y hy)
              (proper_elements hc z hz)
        | _ => simp [equal] at hbc
      | _ => simp [equal] at hab
  | obj fs ih =>
      intro b c ha hb hc hab hbc
      have hfs : Listed fs := listed_of_proper ha
      rw [equal_obj] at hab
      obtain ⟨hrec, hperm, hab⟩ := hab
      have hbc : equal (.obj (ownEntries b)) c = true := by
        cases b with
        | obj gs => exact hbc
        | arr ys => exact equal_positions hc hbc
        | _ => simp [isRecord, isArray] at hrec
      rw [equal_obj] at hbc ⊢
      obtain ⟨hrec', hperm', hbc⟩ := hbc
      refine ⟨hrec', hperm.trans hperm', fun p hp => ?_⟩
      have hk : p.1 ∈ (ownEntries b).map (·.1) := hperm.subset (List.mem_map_of_mem hp)
      exact ih p hp _ _ (hfs.proper p hp) ((listed_of_proper hb).proper_lookup _)
        ((listed_of_proper hc).proper_lookup _) (hab p hp) (hbc _ (mem_of_lookup hk))

end Engine

/-! ## 6. Where the two agree -/

/-- What a field can show: a value of any depth, with fields inside that can be undefined. -/
structure FieldValue where
  value : JsValue SignedNumber
  proper : value.proper = true

/-- The values are spelled otherwise, and alike when arrays of the right one that face an object
    of the left one are written as the objects of their positions. -/
def Unpacks (a b : JsValue ν) : Prop :=
  spelling a = spelling (unpacked a b) ∧ spelling a ≠ spelling b

/-- One value in two spellings: a field is undefined in the one and not there in the other, or a
    zero has another sign. -/
def Respelled (a b : JsValue SignedNumber) : Prop :=
  meaning a = meaning b ∧ spelling a ≠ spelling b

/-- **Comparison is comparison of meanings, except for arrays taken for objects and for one value
    in two spellings.** On every two values the engine decides whether they mean the same, does so
    in either order and as the review screen does, exactly when neither unpacks to the other and
    they are no respelling of each other; and the engine's comparison is transitive. -/
theorem equal_means (a b c : FieldValue) :
    (((equal a.value b.value = true ↔ meaning a.value = meaning b.value) ∧
        equal b.value a.value = equal a.value b.value ∧
        equal a.value b.value = sameValue a.value b.value) ↔
      ¬ Unpacks a.value b.value ∧ ¬ Unpacks b.value a.value ∧ ¬ Respelled a.value b.value) ∧
    (equal a.value b.value = true → equal b.value c.value = true →
      equal a.value c.value = true) := by
  refine ⟨?_, equal_trans a.value b.value c.value a.proper b.proper c.proper⟩
  obtain ⟨a, ha⟩ := a
  obtain ⟨b, hb⟩ := b
  have hab := equal_iff a b ha hb
  have hba := equal_iff b a hb ha
  have hsame := sameValue_iff a b ha hb
  unfold Unpacks Respelled
  simp only
  constructor
  · rintro ⟨hmeans, hsymm, hreview⟩
    have hspell : equal a b = true → spelling a = spelling b := by
      intro h
      rw [hreview] at h
      exact hsame.mp h
    refine ⟨fun h => h.2 (hspell (hab.mpr h.1)), fun h => h.2 ?_,
      fun h => h.2 (hspell (hmeans.mpr h.1))⟩
    have hequal : equal a b = true := hsymm ▸ hba.mpr h.1
    exact (hspell hequal).symm
  · rintro ⟨h1, h2, h3⟩
    have hl : equal a b = true ↔ spelling a = spelling b :=
      ⟨fun h => by_contra fun hne => h1 ⟨hab.mp h, hne⟩, fun h => hab.mpr (unpacked_same a b h)⟩
    have hr : equal b a = true ↔ spelling b = spelling a :=
      ⟨fun h => by_contra fun hne => h2 ⟨hba.mp h, hne⟩, fun h => hba.mpr (unpacked_same b a h)⟩
    have hmeans : spelling a = spelling b ↔ meaning a = meaning b :=
      ⟨fun h => congrArg Meaning.denoted h, fun h => by_contra fun hne => h3 ⟨h, hne⟩⟩
    refine ⟨hl.trans hmeans, ?_, ?_⟩
    · rw [Bool.eq_iff_iff, hl, hr, eq_comm]
    · rw [Bool.eq_iff_iff, hl, hsame]

/-- The object `{"0": 1}` and the array `[1]`. -/
def objectOfOne : JsValue SignedNumber := .obj [("0", .num (.number 1))]

/-- The array `[1]`. -/
def arrayOfOne : JsValue SignedNumber := .arr [.num (.number 1)]

/-- The two zeros. -/
def negativeZero : JsValue SignedNumber := .num .negZero

/-- The other of the two zeros. -/
def positiveZero : JsValue SignedNumber := .num (.number 0)

/-- The object `{a: undefined}`. -/
def undefinedField : JsValue SignedNumber := .obj [("a", .undefined)]

/-- The engine takes the object for the array, not the array for the object, and the review
    screen takes neither for the other. And an undefined field is told from none, and the one zero
    from the other. -/
theorem equal_means_not :
    (equal objectOfOne arrayOfOne = true ∧ meaning objectOfOne ≠ meaning arrayOfOne ∧
      equal arrayOfOne objectOfOne = false ∧ sameValue objectOfOne arrayOfOne = false) ∧
    (equal undefinedField (.obj []) = false ∧ meaning undefinedField = meaning (.obj [])) ∧
    equal negativeZero positiveZero = false ∧ meaning negativeZero = meaning positiveZero := by
  refine ⟨⟨by decide +kernel, ?_, by decide +kernel, by decide +kernel⟩, ⟨by decide +kernel, ?_⟩,
    by decide +kernel, rfl⟩
  · simp [objectOfOne, arrayOfOne, meaning, spelling, Meaning.denoted]
  · refine congrArg Meaning.obj (funext fun k => ?_)
    unfold spellingAt
    split <;> rfl

end Stowplan
