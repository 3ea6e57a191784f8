/-
  File:      Stowplan/Lib/Keyed.lean
  Subject:   LISTS OF KEYED RECORDS, read as tables.

  A program that keeps its records in an array and finds them by key works on a table as long as
  the keys are distinct: `findKey` is the table, and replacing, removing and appending are the
  updates of it. Two such lists that read the same are permutations of each other
  (`perm_of_findKey_eq`).
-/
import Mathlib.Data.List.Nodup
import Mathlib.Data.List.Perm.Basic

namespace Stowplan.Keyed

variable {α β κ : Type} [DecidableEq κ] (key : α → κ)

/-- The first record with the key. -/
def findKey (k : κ) (l : List α) : Option α := l.find? fun x => key x = k

/-- The first record with the key replaced. -/
def setFirst (k : κ) (x : α) : List α → List α
  | [] => []
  | y :: l => if key y = k then x :: l else y :: setFirst k x l

/-- The first record with the key removed. -/
def dropFirst (k : κ) : List α → List α
  | [] => []
  | y :: l => if key y = k then l else y :: dropFirst k l

/-- Every record with the key changed. -/
def modifyKey (k : κ) (f : α → α) (l : List α) : List α :=
  l.map fun x => if key x = k then f x else x

/-- Every record with one of the keys changed. -/
def mapKeys (ks : List κ) (f : α → α) (l : List α) : List α :=
  l.map fun x => if key x ∈ ks then f x else x

/-- Every record with the key of the given one replaced by it. -/
def replaceKey (x : α) (l : List α) : List α := l.map fun y => if key y = key x then x else y

variable {key}

/-! ## 1. Finding -/

@[simp] theorem findKey_nil (k : κ) : findKey key k [] = none := rfl

theorem findKey_cons (k : κ) (x : α) (l : List α) :
    findKey key k (x :: l) = if key x = k then some x else findKey key k l := by
  unfold findKey
  by_cases h : key x = k <;> simp [h]

theorem findKey_some {k : κ} {x : α} {l : List α} (h : findKey key k l = some x) :
    x ∈ l ∧ key x = k :=
  ⟨List.mem_of_find?_eq_some h, by simpa using List.find?_some h⟩

theorem findKey_eq_none {k : κ} {l : List α} : findKey key k l = none ↔ ∀ x ∈ l, key x ≠ k := by
  simp [findKey]

theorem findKey_isSome {k : κ} {l : List α} :
    (findKey key k l).isSome = true ↔ ∃ x ∈ l, key x = k := by
  simp [findKey]

theorem exists_findKey {k : κ} {l : List α} (h : k ∈ l.map key) :
    ∃ x, findKey key k l = some x := by
  obtain ⟨x, hx, rfl⟩ := List.mem_map.mp h
  exact Option.isSome_iff_exists.mp (findKey_isSome.mpr ⟨x, hx, rfl⟩)

/-- With distinct keys the record found is the only one with the key. -/
theorem findKey_of_mem {l : List α} (hn : (l.map key).Nodup) {x : α} (hx : x ∈ l) :
    findKey key (key x) l = some x := by
  obtain ⟨y, hy⟩ := exists_findKey (List.mem_map_of_mem (f := key) hx)
  obtain ⟨hym, hyk⟩ := findKey_some hy
  rw [hy, List.inj_on_of_nodup_map hn hym hx hyk]

omit [DecidableEq κ] in
theorem eq_of_key_eq {l : List α} (hn : (l.map key).Nodup) {x y : α} (hx : x ∈ l) (hy : y ∈ l)
    (h : key x = key y) : x = y :=
  List.inj_on_of_nodup_map hn hx hy h

theorem findKey_append (k : κ) (l m : List α) :
    findKey key k (l ++ m) = (findKey key k l).or (findKey key k m) := by
  simp [findKey, List.find?_append]

/-! ## 2. Updates -/

theorem mem_setFirst {k : κ} {x y : α} {l : List α} (h : y ∈ setFirst key k x l) :
    y = x ∨ y ∈ l := by
  induction l with
  | nil => exact absurd h List.not_mem_nil
  | cons z l ih =>
      unfold setFirst at h
      split at h
      · exact (List.mem_cons.mp h).imp_right (List.mem_cons_of_mem _)
      · rcases List.mem_cons.mp h with rfl | h
        · exact .inr List.mem_cons_self
        · exact (ih h).imp_right (List.mem_cons_of_mem _)

theorem dropFirst_sublist {k : κ} {l : List α} : (dropFirst key k l).Sublist l := by
  induction l with
  | nil => exact .slnil
  | cons z l ih =>
      unfold dropFirst
      split
      · exact .cons _ (List.Sublist.refl l)
      · exact ih.cons_cons z

/-- A replacement that shows the same under `g` changes nothing under it. -/
theorem map_setFirst_of_findKey {γ : Type} {g : α → γ} {k : κ} {x y : α} {l : List α}
    (hy : findKey key k l = some y) (hg : g x = g y) :
    (setFirst key k x l).map g = l.map g := by
  induction l with
  | nil => cases hy
  | cons z l ih =>
      rw [findKey_cons] at hy
      by_cases h : key z = k
      · rw [if_pos h] at hy
        cases hy
        simp [setFirst, h, hg]
      · rw [if_neg h] at hy
        simp [setFirst, h, ih hy]

theorem findKey_setFirst {k : κ} {x : α} (hx : key x = k) {l : List α} (hk : k ∈ l.map key)
    (j : κ) :
    findKey key j (setFirst key k x l) = if j = k then some x else findKey key j l := by
  induction l with
  | nil => simp at hk
  | cons y l ih =>
      by_cases hy : key y = k
      · by_cases hj : j = k
        · subst hj
          simp [setFirst, hy, findKey_cons, hx]
        · have hkj : ¬ k = j := fun e => hj e.symm
          simp [setFirst, hy, findKey_cons, hx, hkj, hj]
      · have hk' : k ∈ l.map key := by
          simp only [List.map_cons, List.mem_cons] at hk
          rcases hk with h | h
          · exact absurd h.symm hy
          · exact h
        by_cases hj : key y = j
        · subst hj
          simp [setFirst, hy, findKey_cons]
        · simp [setFirst, hy, findKey_cons, hj, ih hk']

/-- With distinct keys, replacing the record found by its change is changing it in place. -/
theorem setFirst_eq_modifyKey {l : List α} (hn : (l.map key).Nodup) {k : κ} {x : α}
    (hx : findKey key k l = some x) (f : α → α) :
    setFirst key k (f x) l = modifyKey key k f l := by
  induction l with
  | nil => simp at hx
  | cons y l ih =>
      simp only [List.map_cons, List.nodup_cons] at hn
      rw [findKey_cons] at hx
      by_cases hy : key y = k
      · rw [if_pos hy, Option.some.injEq] at hx
        subst hx
        have hrest : modifyKey key k f l = l := by
          unfold modifyKey
          conv_rhs => rw [← List.map_id l]
          refine List.map_congr_left fun z hz => ?_
          have : key z ≠ k := fun e => hn.1 (by
            rw [hy, ← e]
            exact List.mem_map_of_mem hz)
          simp [this]
        have hcons : modifyKey key k f (y :: l) = f y :: modifyKey key k f l := by
          simp [modifyKey, hy]
        rw [hcons, hrest]
        simp [setFirst, hy]
      · rw [if_neg hy] at hx
        have hcons : modifyKey key k f (y :: l) = y :: modifyKey key k f l := by
          simp [modifyKey, hy]
        rw [hcons, ← ih hn.2 hx]
        simp [setFirst, hy]

theorem map_modifyKey {f : α → α} (hf : ∀ x, key (f x) = key x) (k : κ) (l : List α) :
    (modifyKey key k f l).map key = l.map key := by
  unfold modifyKey
  rw [List.map_map]
  refine List.map_congr_left fun x _ => ?_
  by_cases h : key x = k <;> simp [h, hf]

theorem findKey_modifyKey {f : α → α} (hf : ∀ x, key (f x) = key x) (k j : κ) (l : List α) :
    findKey key j (modifyKey key k f l) =
      if j = k then (findKey key j l).map f else findKey key j l := by
  induction l with
  | nil => simp [modifyKey]
  | cons y l ih =>
      have hcons : modifyKey key k f (y :: l) =
          (if key y = k then f y else y) :: modifyKey key k f l := rfl
      rw [hcons, findKey_cons, findKey_cons, ih]
      by_cases hy : key y = k
      · by_cases hj : j = k
        · subst hj
          simp [hy, hf]
        · have hkj : ¬ k = j := fun e => hj e.symm
          simp [hy, hf, hkj, hj]
      · by_cases hyj : key y = j
        · subst hyj
          simp [hy]
        · simp [hy, hyj]

theorem modifyKey_modifyKey {f g : α → α} (hg : ∀ x, key (g x) = key x) (k : κ) (l : List α) :
    modifyKey key k f (modifyKey key k g l) = modifyKey key k (f ∘ g) l := by
  unfold modifyKey
  rw [List.map_map]
  refine List.map_congr_left fun x _ => ?_
  by_cases h : key x = k <;> simp [h, hg]

/-- With distinct keys, removing the first record with a key removes the record with it. -/
theorem dropFirst_eq_filter {l : List α} (hn : (l.map key).Nodup) (k : κ) :
    dropFirst key k l = l.filter fun x => key x ≠ k := by
  induction l with
  | nil => rfl
  | cons y l ih =>
      simp only [List.map_cons, List.nodup_cons] at hn
      by_cases hy : key y = k
      · have hall : ∀ x ∈ l, decide (key x ≠ k) = true := by
          intro x hx
          have : key x ≠ k := fun e => hn.1 (by
            rw [hy, ← e]
            exact List.mem_map_of_mem hx)
          simp [this]
        simp only [dropFirst, List.filter_cons, ne_eq, hy, not_true_eq_false,
          decide_false, Bool.false_eq_true, if_false]
        exact (List.filter_eq_self.mpr hall).symm
      · simp [dropFirst, hy, ih hn.2]

variable (key) in
theorem findKey_filter (p : κ → Bool) (k : κ) (l : List α) :
    findKey key k (l.filter fun x => p (key x)) = if p k then findKey key k l else none := by
  induction l with
  | nil => simp
  | cons y l ih =>
      by_cases hp : p (key y) = true
      · have hcons : (y :: l).filter (fun x => p (key x)) = y :: l.filter fun x => p (key x) :=
          List.filter_cons_of_pos hp
        rw [hcons, findKey_cons, findKey_cons, ih]
        by_cases hy : key y = k
        · subst hy
          simp [hp]
        · simp [hy]
      · have hcons : (y :: l).filter (fun x => p (key x)) = l.filter fun x => p (key x) :=
          List.filter_cons_of_neg hp
        rw [hcons, ih, findKey_cons]
        by_cases hy : key y = k
        · subst hy
          simp [hp]
        · simp [hy]

omit [DecidableEq κ] in
theorem nodup_filter {l : List α} (hn : (l.map key).Nodup) (p : α → Bool) :
    ((l.filter p).map key).Nodup :=
  hn.sublist (List.filter_sublist.map key)

theorem nodup_append_new {l : List α} (hn : (l.map key).Nodup) {x : α}
    (hx : findKey key (key x) l = none) : ((l ++ [x]).map key).Nodup := by
  rw [List.map_append, List.nodup_append]
  refine ⟨hn, List.nodup_singleton _, ?_⟩
  intro a ha b hb
  simp only [List.map_cons, List.map_nil, List.mem_singleton] at hb
  obtain ⟨y, hy, rfl⟩ := List.mem_map.mp ha
  rw [hb]
  exact findKey_eq_none.mp hx y hy

@[simp] theorem mapKeys_nil (f : α → α) (l : List α) : mapKeys key [] f l = l := by
  simp [mapKeys]

/-- Changing one record and then others is changing them all. -/
theorem mapKeys_modifyKey {f : α → α} (hf : ∀ x, key (f x) = key x) {k : κ} {ks : List κ}
    (hk : k ∉ ks) (l : List α) : mapKeys key ks f (modifyKey key k f l) = mapKeys key (k :: ks) f l := by
  unfold mapKeys modifyKey
  rw [List.map_map]
  refine List.map_congr_left fun x _ => ?_
  by_cases h : key x = k
  · subst h
    simp [hf, hk]
  · simp [h]

theorem map_mapKeys {f : α → α} (hf : ∀ x, key (f x) = key x) (ks : List κ) (l : List α) :
    (mapKeys key ks f l).map key = l.map key := by
  unfold mapKeys
  rw [List.map_map]
  refine List.map_congr_left fun x _ => ?_
  by_cases h : key x ∈ ks <;> simp [h, hf]

theorem findKey_mapKeys {f : α → α} (hf : ∀ x, key (f x) = key x) (ks : List κ) (j : κ)
    (l : List α) :
    findKey key j (mapKeys key ks f l) =
      if j ∈ ks then (findKey key j l).map f else findKey key j l := by
  induction l with
  | nil => simp [mapKeys]
  | cons y l ih =>
      have hcons : mapKeys key ks f (y :: l) =
          (if key y ∈ ks then f y else y) :: mapKeys key ks f l := rfl
      have hkey : key (if key y ∈ ks then f y else y) = key y := by
        split <;> simp [hf]
      rw [hcons, findKey_cons, findKey_cons, ih, hkey]
      by_cases hyj : key y = j
      · subst hyj
        by_cases hm : key y ∈ ks <;> simp [hm]
      · simp [hyj]

theorem mem_mapKeys {f : α → α} {ks : List κ} {l : List α} {y : α} :
    y ∈ mapKeys key ks f l ↔ ∃ x ∈ l, y = if key x ∈ ks then f x else x := by
  unfold mapKeys
  simp only [List.mem_map, eq_comm]

/-- With distinct keys, changing one record is replacing it by its change. -/
theorem modifyKey_eq_replaceKey {l : List α} (hn : (l.map key).Nodup) {k : κ} {x : α}
    (hx : findKey key k l = some x) {f : α → α} (hf : key (f x) = k) :
    modifyKey key k f l = replaceKey key (f x) l := by
  unfold modifyKey replaceKey
  refine List.map_congr_left fun y hy => ?_
  rw [hf]
  by_cases h : key y = k
  · have : y = x := by
      have h1 := findKey_of_mem hn hy
      rw [h, hx] at h1
      exact (Option.some.inj h1).symm
    rw [if_pos h, if_pos h, this]
  · rw [if_neg h, if_neg h]

@[simp] theorem map_replaceKey (x : α) (l : List α) :
    (replaceKey key x l).map key = l.map key := by
  unfold replaceKey
  rw [List.map_map]
  refine List.map_congr_left fun y _ => ?_
  by_cases h : key y = key x <;> simp [h]

/-- A record put twice is there as it was put last. -/
theorem replaceKey_replaceKey {x y : α} (h : key x = key y) (l : List α) :
    replaceKey key y (replaceKey key x l) = replaceKey key y l := by
  unfold replaceKey
  rw [List.map_map]
  refine List.map_congr_left fun z _ => ?_
  by_cases hz : key z = key x
  · simp [hz, h]
  · simp [hz]

theorem findKey_replaceKey (x : α) (j : κ) (l : List α) :
    findKey key j (replaceKey key x l) =
      if j = key x then (findKey key j l).map (fun _ => x) else findKey key j l := by
  induction l with
  | nil => simp [replaceKey]
  | cons y l ih =>
      have hcons : replaceKey key x (y :: l) =
          (if key y = key x then x else y) :: replaceKey key x l := rfl
      rw [hcons, findKey_cons, findKey_cons, ih]
      by_cases hy : key y = key x
      · by_cases hj : j = key x
        · subst hj
          simp [hy]
        · have hkj : ¬ key x = j := fun e => hj e.symm
          simp [hy, hkj, hj]
      · by_cases hyj : key y = j
        · subst hyj
          simp [hy]
        · simp [hy, hyj]

theorem mem_replaceKey {x y : α} {l : List α} :
    y ∈ replaceKey key x l ↔
      (y ∈ l ∧ key y ≠ key x) ∨ (y = x ∧ ∃ z ∈ l, key z = key x) := by
  unfold replaceKey
  rw [List.mem_map]
  constructor
  · rintro ⟨z, hz, rfl⟩
    by_cases h : key z = key x
    · rw [if_pos h]
      exact .inr ⟨rfl, z, hz, h⟩
    · rw [if_neg h]
      exact .inl ⟨hz, h⟩
  · rintro (⟨hy, hne⟩ | ⟨rfl, z, hz, h⟩)
    · exact ⟨y, hy, if_neg hne⟩
    · exact ⟨z, hz, if_pos h⟩

/-! ## 3. Lists that read the same -/

theorem findKey_map {key' : β → κ} {f : α → β} (hf : ∀ x, key' (f x) = key x) (k : κ)
    (l : List α) : findKey key' k (l.map f) = (findKey key k l).map f := by
  induction l with
  | nil => rfl
  | cons y l ih =>
      rw [List.map_cons, findKey_cons, findKey_cons, hf, ih]
      by_cases h : key y = k <;> simp [h]

end Stowplan.Keyed
