/-
  File:      Stowplan/Lib/Table.lean
  Subject:   TABLES WITH A PRIMARY KEY.

  A table is a list of rows whose keys are distinct. Rows are inserted unless the key is taken,
  updated in place without touching the key, and deleted.

  * `get_update`, `get_delete`, `get_insert`: what a statement does to every key;
  * `rows_perm`, `rows_update_perm`: the row of a key beside the others, for counts and sums;
  * `exists_other_of_count`: where more than one row is counted, there is another than a given one.
-/
import Stowplan.Lib.Keyed

namespace Stowplan

open Keyed

/-- Rows that have a primary key. -/
class Row (ρ : Type) (κ : outParam Type) where
  key : ρ → κ

/-- Rows whose keys differ. -/
structure Table (ρ : Type) {κ : Type} [Row ρ κ] where
  rows : List ρ
  unique : (rows.map Row.key).Nodup

namespace Table

variable {ρ κ : Type} [Row ρ κ] [DecidableEq κ]

/-- No rows. -/
def empty : Table ρ := ⟨[], List.nodup_nil⟩

/-- The row of a key. -/
def get (t : Table ρ) (k : κ) : Option ρ := findKey Row.key k t.rows

omit [DecidableEq κ] in
theorem map_key_update (rows : List ρ) (p : ρ → Bool) {f : ρ → ρ}
    (hf : ∀ r, Row.key (f r) = Row.key r) :
    (rows.map fun r => if p r then f r else r).map Row.key = rows.map Row.key := by
  rw [List.map_map]
  refine List.map_congr_left fun r _ => ?_
  show Row.key (if p r = true then f r else r) = Row.key r
  by_cases h : p r = true
  · rw [if_pos h, hf]
  · rw [if_neg h]

/-- `UPDATE … SET … WHERE`. -/
def update (t : Table ρ) (p : ρ → Bool) (f : ρ → ρ) (hf : ∀ r, Row.key (f r) = Row.key r) :
    Table ρ where
  rows := t.rows.map fun r => if p r then f r else r
  unique := by
    rw [map_key_update t.rows p hf]
    exact t.unique

/-- `DELETE FROM … WHERE`. -/
def delete (t : Table ρ) (p : ρ → Bool) : Table ρ where
  rows := t.rows.filter fun r => !p r
  unique := nodup_filter t.unique _

/-- `INSERT INTO …`: it fails where the key is taken. -/
def insert (t : Table ρ) (r : ρ) : Option (Table ρ) :=
  if h : t.get (Row.key r) = none then
    some ⟨t.rows ++ [r], nodup_append_new t.unique h⟩
  else none

/-- `INSERT … ON CONFLICT DO UPDATE`: the row takes the place of the one with its key. -/
def put (t : Table ρ) (r : ρ) : Table ρ where
  rows := if (t.get (Row.key r)).isSome then t.rows.map fun q => if Row.key q = Row.key r then r else q
    else t.rows ++ [r]
  unique := by
    split
    · have hkey : (t.rows.map fun q => if Row.key q = Row.key r then r else q).map Row.key =
          t.rows.map Row.key := by
        rw [List.map_map]
        refine List.map_congr_left fun q _ => ?_
        show Row.key (if Row.key q = Row.key r then r else q) = Row.key q
        by_cases h : Row.key q = Row.key r
        · rw [if_pos h, h]
        · rw [if_neg h]
      rw [hkey]
      exact t.unique
    · rename_i hnone
      have hnone : t.get (Row.key r) = none := by simpa using hnone
      exact nodup_append_new t.unique hnone

/-- `SELECT COUNT(*) FROM … WHERE`. -/
def count (t : Table ρ) (p : ρ → Bool) : Nat := t.rows.countP p

/-- `EXISTS (SELECT 1 FROM … WHERE)`. -/
def any (t : Table ρ) (p : ρ → Bool) : Bool := t.rows.any p

variable {t t' : Table ρ} {k : κ} {r : ρ} {p : ρ → Bool} {f : ρ → ρ}

omit [DecidableEq κ] in
theorem eq_of_rows (h : t.rows = t'.rows) : t = t' := by
  cases t
  cases t'
  cases h
  rfl

theorem get_some (h : t.get k = some r) : r ∈ t.rows ∧ Row.key r = k := findKey_some h

theorem get_of_mem (h : r ∈ t.rows) : t.get (Row.key r) = some r := findKey_of_mem t.unique h

theorem any_iff : t.any p = true ↔ ∃ k r, t.get k = some r ∧ p r = true := by
  unfold any
  rw [List.any_eq_true]
  constructor
  · rintro ⟨r, hr, hp⟩
    exact ⟨Row.key r, r, get_of_mem hr, hp⟩
  · rintro ⟨k, r, hr, hp⟩
    exact ⟨r, (get_some hr).1, hp⟩

@[simp] theorem get_empty (k : κ) : (empty : Table ρ).get k = none := rfl

theorem get_update (hf : ∀ r, Row.key (f r) = Row.key r) :
    (t.update p f hf).get k = (t.get k).map fun r => if p r then f r else r := by
  have hkey : ∀ r, Row.key (if p r = true then f r else r) = Row.key r := by
    intro r
    by_cases h : p r = true
    · rw [if_pos h, hf]
    · rw [if_neg h]
  exact findKey_map hkey k t.rows

/-- An update of the row with one key. -/
theorem get_update_key (hf : ∀ r, Row.key (f r) = Row.key r) (j : κ)
    (hp : ∀ r, p r = decide (Row.key r = j)) :
    (t.update p f hf).get k = if k = j then (t.get k).map f else t.get k := by
  rw [get_update]
  cases hk : t.get k with
  | none => by_cases h : k = j <;> simp [h]
  | some r =>
      rw [Option.map_some, hp r, (get_some hk).2]
      by_cases h : k = j <;> simp [h]

/-- Where no row has the key, an update of it changes nothing. -/
theorem update_absent (hf : ∀ r, Row.key (f r) = Row.key r) (hk : t.get k = none)
    (hp : ∀ r, p r = decide (Row.key r = k)) : t.update p f hf = t := by
  refine eq_of_rows ((List.map_congr_left fun r hr => ?_).trans (List.map_id _))
  refine if_neg fun hpr => ?_
  rw [hp, decide_eq_true_iff] at hpr
  have hget := get_of_mem hr
  rw [hpr, hk] at hget
  cases hget

theorem get_delete : (t.delete p).get k = (t.get k).filter fun r => !p r := by
  cases hd : (t.delete p).get k with
  | some r =>
      obtain ⟨hr, hk⟩ := get_some hd
      obtain ⟨hr, hp⟩ := List.mem_filter.mp hr
      rw [← hk, get_of_mem hr]
      simp [Option.filter, hp]
  | none =>
      cases hk : t.get k with
      | none => rfl
      | some r =>
          obtain ⟨hr, hkey⟩ := get_some hk
          by_cases hp : p r = true
          · simp [Option.filter, hp]
          · have hmem : r ∈ (t.delete p).rows := List.mem_filter.mpr ⟨hr, by simpa using hp⟩
            have := get_of_mem hmem
            rw [hkey, hd] at this
            cases this

/-- A deletion of the row with one key. -/
theorem get_delete_key (j : κ) (hp : ∀ r, p r = decide (Row.key r = j)) :
    (t.delete p).get k = if k = j then none else t.get k := by
  rw [get_delete]
  cases hk : t.get k with
  | none => simp
  | some r =>
      have hkey := (get_some hk).2
      by_cases h : k = j
      · simp [Option.filter, hp, hkey, h]
      · simp [Option.filter, hp, hkey, h]

theorem get_insert (h : t.insert r = some t') (k : κ) :
    t'.get k = if Row.key r = k then some r else t.get k := by
  unfold insert at h
  split at h
  · rename_i hnew
    cases h
    show findKey Row.key k (t.rows ++ [r]) = _
    rw [findKey_append, findKey_cons, findKey_nil]
    by_cases hk : Row.key r = k
    · rw [if_pos hk, if_pos hk]
      have hnone : findKey Row.key k t.rows = none := hk ▸ hnew
      rw [hnone]
      rfl
    · rw [if_neg hk, if_neg hk]
      exact Option.or_none
  · cases h

/-- Inserting fails only where the key is taken. -/
theorem insert_new (h : t.insert r = some t') : t.get (Row.key r) = none := by
  unfold insert at h
  split at h
  · rename_i hnew
    exact hnew
  · cases h

omit [DecidableEq κ] in
theorem rows_update (hf : ∀ r, Row.key (f r) = Row.key r) :
    (t.update p f hf).rows = t.rows.map fun r => if p r then f r else r := rfl

/-- The row of a key, and the other rows. -/
theorem rows_perm (hr : t.get k = some r) :
    t.rows.Perm (r :: t.rows.filter fun q => decide (Row.key q ≠ k)) := by
  obtain ⟨hmem, hk⟩ := get_some hr
  have hnodup : t.rows.Nodup := .of_map _ t.unique
  refine (List.perm_ext_iff_of_nodup hnodup (List.nodup_cons.mpr ⟨?_, hnodup.filter _⟩)).mpr
    fun q => ?_
  · simp [hk]
  · rw [List.mem_cons, List.mem_filter, decide_eq_true_iff]
    constructor
    · intro hq
      by_cases hkey : Row.key q = k
      · have hq := get_of_mem hq
        rw [hkey, hr, Option.some.injEq] at hq
        exact .inl hq.symm
      · exact .inr ⟨hq, hkey⟩
    · rintro (rfl | ⟨hq, -⟩)
      · exact hmem
      · exact hq

/-- The same after an update of the row of a key. -/
theorem rows_update_perm (hf : ∀ r, Row.key (f r) = Row.key r)
    (hp : ∀ r, p r = decide (Row.key r = k)) (hr : t.get k = some r) :
    (t.update p f hf).rows.Perm (f r :: t.rows.filter fun q => decide (Row.key q ≠ k)) := by
  have hget : (t.update p f hf).get k = some (f r) := by
    rw [get_update_key hf k hp, if_pos rfl, hr]
    rfl
  refine (rows_perm hget).trans (.cons _ (.of_eq ?_))
  rw [rows_update]
  generalize t.rows = rows
  induction rows with
  | nil => rfl
  | cons q rows ih =>
      rw [List.map_cons, List.filter_cons, List.filter_cons, ih, hp q]
      by_cases hq : Row.key q = k
      · simp [hq, hf]
      · simp [hq]

/-- **Where more than one row is counted, there is another one.** -/
theorem exists_other_of_count (hr : t.get k = some r) (hcount : 1 < t.count p) :
    ∃ j q, j ≠ k ∧ t.get j = some q ∧ p q = true := by
  by_contra hnone
  have honly : ∀ q ∈ t.rows, p q = true → q = r := by
    intro q hq hpq
    by_contra hne
    refine hnone ⟨Row.key q, q, fun hk => hne ?_, get_of_mem hq, hpq⟩
    have hq' := get_of_mem hq
    rw [hk, hr, Option.some.injEq] at hq'
    exact hq'.symm
  have hfilter : t.rows.filter p = t.rows.filter fun q => p q && decide (Row.key q = k) := by
    refine List.filter_congr fun q hq => ?_
    by_cases hpq : p q = true
    · rw [honly q hq hpq, (get_some hr).2]
      simp
    · simp [hpq]
  have hle : (t.rows.filter fun q => p q && decide (Row.key q = k)).length ≤ 1 := by
    have hnodup := nodup_filter t.unique fun q => p q && decide (Row.key q = k)
    match hrows : t.rows.filter fun q => p q && decide (Row.key q = k) with
    | [] => simp
    | [_] => simp
    | x :: y :: l =>
        rw [hrows] at hnodup
        have hx : x ∈ t.rows.filter fun q => p q && decide (Row.key q = k) := by
          rw [hrows]
          exact List.mem_cons_self
        have hy : y ∈ t.rows.filter fun q => p q && decide (Row.key q = k) := by
          rw [hrows]
          exact List.mem_cons_of_mem _ List.mem_cons_self
        have hx := (Bool.and_eq_true_iff.mp (List.mem_filter.mp hx).2).2
        have hy := (Bool.and_eq_true_iff.mp (List.mem_filter.mp hy).2).2
        simp only [decide_eq_true_eq] at hx hy
        simp [hx, hy] at hnodup
  unfold count at hcount
  rw [List.countP_eq_length_filter, hfilter] at hcount
  omega

end Table

end Stowplan
