/-
  File:      Stowplan/Lib/Tally.lean
  Subject:   TALLIES: what the records of a keyed list weigh together.

  A record weighs what a function says, in any commutative group. Putting a record in, taking
  one out and replacing one change the tally by what these records weigh and by nothing else;
  so an operation that moves an amount from one record to another is seen in every tally as
  the difference of the two weights.

  * `tally_replaceKey`, `tally_filter_key`, `tally_append`: the three edits of a keyed list;
  * `le_tally`, `add_le_tally`: one record, and two with different keys, weigh no more than all.
-/
import Stowplan.Lib.Keyed
import Mathlib.Algebra.BigOperators.Group.List.Basic
import Mathlib.Algebra.Order.Group.Defs
import Mathlib.Tactic.Abel

namespace Stowplan.Keyed

variable {α κ M : Type} [DecidableEq κ] {key : α → κ}

/-- The sum of the weights. -/
def tally [AddCommGroup M] (f : α → M) : List α → M
  | [] => 0
  | a :: as => f a + tally f as

section Group

variable [AddCommGroup M] {f g : α → M}

theorem tally_cons (a : α) (as : List α) : tally f (a :: as) = f a + tally f as := rfl

theorem tally_singleton (a : α) : tally f [a] = f a := add_zero (f a)

theorem tally_append (as bs : List α) : tally f (as ++ bs) = tally f as + tally f bs := by
  induction as with
  | nil => rw [List.nil_append, tally, zero_add]
  | cons a as ih => rw [List.cons_append, tally, tally, ih, add_assoc]

theorem tally_congr {as : List α} (h : ∀ a ∈ as, f a = g a) : tally f as = tally g as := by
  induction as with
  | nil => rfl
  | cons a as ih =>
      rw [tally, tally, h a List.mem_cons_self, ih fun b hb => h b (List.mem_cons_of_mem a hb)]

theorem tally_perm {as bs : List α} (h : as.Perm bs) : tally f as = tally f bs := by
  induction h with
  | nil => rfl
  | cons a _ ih => rw [tally, tally, ih]
  | swap a b l =>
      rw [tally, tally, tally, tally]
      abel
  | trans _ _ ih ih' => rw [ih, ih']

theorem tally_map {β : Type} (e : β → α) (bs : List β) :
    tally f (bs.map e) = tally (fun b => f (e b)) bs := by
  induction bs with
  | nil => rfl
  | cons b bs ih => rw [List.map_cons, tally, tally, ih]

theorem tally_sub (as : List α) : tally (fun a => f a - g a) as = tally f as - tally g as := by
  induction as with
  | nil => rw [tally, tally, tally, sub_zero]
  | cons a as ih =>
      rw [tally, tally, tally, ih]
      abel

theorem tally_zero {as : List α} (h : ∀ a ∈ as, f a = 0) : tally f as = 0 := by
  induction as with
  | nil => rfl
  | cons a as ih =>
      rw [tally, h a List.mem_cons_self, ih fun b hb => h b (List.mem_cons_of_mem a hb), add_zero]

/-- Replacing a record changes the tally by the difference of the two. -/
theorem tally_replaceKey {as : List α} (hn : (as.map key).Nodup) {a b : α} (ha : a ∈ as)
    (hk : key b = key a) : tally f (replaceKey key b as) = tally f as - f a + f b := by
  induction as with
  | nil => cases ha
  | cons c as ih =>
      obtain ⟨hnot, hn⟩ := List.nodup_cons.mp hn
      have hcons : replaceKey key b (c :: as) =
          (if key c = key b then b else c) :: replaceKey key b as := rfl
      rcases List.mem_cons.mp ha with rfl | ha
      · have hrest : replaceKey key b as = as := by
          refine (List.map_congr_left fun d hd => if_neg fun he => ?_).trans (List.map_id as)
          exact hnot (List.mem_map.mpr ⟨d, hd, he.trans hk⟩)
        rw [hcons, if_pos hk.symm, hrest, tally, tally]
        abel
      · have hne : key c ≠ key b := fun he =>
          hnot (List.mem_map.mpr ⟨a, ha, (he.trans hk).symm⟩)
        rw [hcons, if_neg hne, tally, tally, ih hn ha]
        abel

/-- Taking a record out changes the tally by its weight. -/
theorem tally_filter_key {as : List α} (hn : (as.map key).Nodup) {a : α} (ha : a ∈ as) :
    tally f (as.filter fun b => key b ≠ key a) = tally f as - f a := by
  induction as with
  | nil => cases ha
  | cons c as ih =>
      obtain ⟨hnot, hn⟩ := List.nodup_cons.mp hn
      rcases List.mem_cons.mp ha with rfl | ha
      · have hrest : (as.filter fun b => key b ≠ key a) = as := by
          refine List.filter_eq_self.mpr fun d hd => decide_eq_true fun he => ?_
          exact hnot (List.mem_map.mpr ⟨d, hd, he⟩)
        rw [List.filter_cons_of_neg (by simp), hrest, tally]
        abel
      · have hne : key c ≠ key a := fun he => hnot (List.mem_map.mpr ⟨a, ha, he.symm⟩)
        rw [List.filter_cons_of_pos (by simpa using hne), tally, tally, ih hn ha]
        abel

end Group

section Order

variable [AddCommGroup M] [LinearOrder M] [IsOrderedAddMonoid M] {f : α → M}

theorem tally_nonneg {as : List α} (h : ∀ a ∈ as, 0 ≤ f a) : 0 ≤ tally f as := by
  induction as with
  | nil => exact le_refl 0
  | cons a as ih =>
      exact add_nonneg (h a List.mem_cons_self)
        (ih fun b hb => h b (List.mem_cons_of_mem a hb))

/-- One record weighs no more than all. -/
theorem le_tally {as : List α} (h : ∀ a ∈ as, 0 ≤ f a) {a : α} (ha : a ∈ as) :
    f a ≤ tally f as := by
  induction as with
  | nil => cases ha
  | cons c as ih =>
      have hrest : ∀ b ∈ as, 0 ≤ f b := fun b hb => h b (List.mem_cons_of_mem c hb)
      rcases List.mem_cons.mp ha with rfl | ha
      · exact le_add_of_nonneg_right (tally_nonneg hrest)
      · exact (ih hrest ha).trans (le_add_of_nonneg_left (h c List.mem_cons_self))

/-- Two different records weigh no more than all. -/
theorem add_le_tally {as : List α} (h : ∀ a ∈ as, 0 ≤ f a) {a b : α} (ha : a ∈ as)
    (hb : b ∈ as) (hne : a ≠ b) : f a + f b ≤ tally f as := by
  induction as with
  | nil => cases ha
  | cons c as ih =>
      have hrest : ∀ d ∈ as, 0 ≤ f d := fun d hd => h d (List.mem_cons_of_mem c hd)
      rcases List.mem_cons.mp ha with hac | ha'
      · rcases List.mem_cons.mp hb with hbc | hb'
        · exact absurd (hac.trans hbc.symm) hne
        · rw [hac]
          exact add_le_add (le_refl _) (le_tally hrest hb')
      · rcases List.mem_cons.mp hb with hbc | hb'
        · rw [hbc, add_comm]
          exact add_le_add (le_refl _) (le_tally hrest ha')
        · exact (ih hrest ha' hb').trans (le_add_of_nonneg_left (h c List.mem_cons_self))

end Order

end Stowplan.Keyed
