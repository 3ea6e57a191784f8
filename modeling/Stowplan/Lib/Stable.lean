/-
  File:      Stowplan/Lib/Stable.lean
  Subject:   STABLE SORTING, as an order of its own.

  A stable sort by a total preorder is the sort by a strict order: the preorder first, and
  where it does not decide, the place in the list. Nothing here knows of the program.

  * `Precedes`: that order, for any `rank` that grows along the list;
  * `mergeSort_precedes`: a stable sort is in it; `eq_of_precedes`: a list in it is determined by
    its elements;
  * `mergeSort_filter`: sorting what is left is leaving out of what is sorted;
  * `insert_iff`: where an added element comes to stand.
-/
import Mathlib.Data.List.Sort

namespace Stowplan.Stable

variable {α : Type} {le : α → α → Bool} {rank : α → Nat}

/-- The one stands before the other in a stable sort of a list along which `rank` grows. -/
def Precedes (le : α → α → Bool) (rank : α → Nat) (a b : α) : Prop :=
  le a b = true ∧ (le b a = true → rank a < rank b)

theorem Precedes.asymm {a b : α} (h : Precedes le rank a b) : ¬ Precedes le rank b a := by
  intro h'
  have h1 := h.2 h'.1
  have h2 := h'.2 h.1
  omega

theorem Precedes.trans (htrans : ∀ a b c, le a b = true → le b c = true → le a c = true)
    {a b c : α} (hab : Precedes le rank a b) (hbc : Precedes le rank b c) :
    Precedes le rank a c := by
  refine ⟨htrans a b c hab.1 hbc.1, fun hca => ?_⟩
  have h1 := hab.2 (htrans b c a hbc.1 hca)
  have h2 := hbc.2 (htrans c a b hca hab.1)
  omega

/-- Elements of the list with a larger rank stand behind. -/
theorem pair_sublist {l : List α} (hl : l.Pairwise fun a b => rank a < rank b) {a b : α}
    (ha : a ∈ l) (hb : b ∈ l) (h : rank a < rank b) : [a, b].Sublist l := by
  induction l with
  | nil => cases ha
  | cons x l ih =>
      rw [List.pairwise_cons] at hl
      by_cases hbx : b = x
      · subst hbx
        rcases List.mem_cons.mp ha with rfl | ha
        · omega
        · have := hl.1 a ha
          omega
      · have hbl := (List.mem_cons.mp hb).resolve_left hbx
        rcases List.mem_cons.mp ha with rfl | ha
        · exact (List.singleton_sublist.mpr hbl).cons_cons a
        · exact (ih hl.2 ha hbl).cons x

theorem eq_of_rank {l : List α} (hl : l.Pairwise fun a b => rank a < rank b) {a b : α}
    (ha : a ∈ l) (hb : b ∈ l) (h : rank a = rank b) : a = b := by
  induction l with
  | nil => cases ha
  | cons x l ih =>
      rw [List.pairwise_cons] at hl
      rcases List.mem_cons.mp ha with rfl | hal
      · rcases List.mem_cons.mp hb with rfl | hbl
        · rfl
        · have := hl.1 b hbl
          omega
      · rcases List.mem_cons.mp hb with rfl | hbl
        · have := hl.1 a hal
          omega
        · exact ih hl.2 hal hbl

/-- Two elements do not each stand before the other. -/
theorem not_pair_sublist {l : List α} (hn : l.Nodup) {a b : α} (h : [a, b].Sublist l) :
    ¬ [b, a].Sublist l := by
  induction l with
  | nil => simp at h
  | cons x l ih =>
      intro h'
      rw [List.nodup_cons] at hn
      have hfst : ∀ {u v : α}, [u, v].Sublist (x :: l) → v ∈ l := by
        intro u v hs
        rcases List.sublist_cons_iff.mp hs with hs | ⟨r, hr, hs⟩
        · exact hs.subset (by simp)
        · rw [← (List.cons.inj hr).2] at hs
          exact hs.subset (by simp)
      have hnext : ∀ {u v : α}, u ∈ l → [u, v].Sublist (x :: l) → [u, v].Sublist l := by
        intro u v hu hs
        rcases List.sublist_cons_iff.mp hs with hs | ⟨r, hr, _⟩
        · exact hs
        · exact absurd ((List.cons.inj hr).1 ▸ hu) hn.1
      exact ih hn.2 (hnext (hfst h') h) (hnext (hfst h) h')

section Sorting

variable (htrans : ∀ a b c, le a b = true → le b c = true → le a c = true)
  (htotal : ∀ a b, (le a b || le b a) = true)

include htrans htotal

/-- **A stable sort is in the order.** -/
theorem mergeSort_precedes {l : List α} (hl : l.Pairwise fun a b => rank a < rank b) :
    (l.mergeSort le).Pairwise (Precedes le rank) := by
  have hn : l.Nodup := hl.imp fun h he => by
    rw [he] at h
    omega
  have hperm := l.mergeSort_perm le
  have hnodup : (l.mergeSort le).Nodup := hperm.nodup_iff.mpr hn
  rw [List.pairwise_iff_forall_sublist]
  intro a b hab
  have hle := List.pairwise_iff_forall_sublist.mp (List.pairwise_mergeSort htrans htotal l) hab
  refine ⟨hle, fun hba => ?_⟩
  have ha : a ∈ l := hperm.subset (hab.subset (by simp))
  have hb : b ∈ l := hperm.subset (hab.subset (by simp))
  by_contra hlt
  rcases Nat.lt_or_eq_of_le (Nat.le_of_not_lt hlt) with h | h
  · -- the other stands first in the list, and the sort keeps it there
    have hsub := List.pair_sublist_mergeSort htrans htotal hba (pair_sublist hl hb ha h)
    exact not_pair_sublist hnodup hab hsub
  · have he : a = b := eq_of_rank hl ha hb h.symm
    exact not_pair_sublist hnodup hab (he ▸ hab)

omit htrans htotal in
/-- A list in the order is determined by its elements. -/
theorem eq_of_precedes {l m : List α} (h : l.Perm m) (hl : l.Pairwise (Precedes le rank))
    (hm : m.Pairwise (Precedes le rank)) : l = m :=
  List.Perm.eq_of_pairwise (fun _ _ _ _ hab hba => absurd hba hab.asymm) hl hm h

/-- What is left of a sorted list is what is left of the list, sorted. -/
theorem mergeSort_filter {l : List α} (hl : l.Pairwise fun a b => rank a < rank b)
    (p : α → Bool) : (l.mergeSort le).filter p = (l.filter p).mergeSort le := by
  have hperm : ((l.mergeSort le).filter p).Perm ((l.filter p).mergeSort le) :=
    ((l.mergeSort_perm le).filter p).trans ((l.filter p).mergeSort_perm le).symm
  exact eq_of_precedes hperm ((mergeSort_precedes htrans htotal hl).filter p)
    (mergeSort_precedes htrans htotal (hl.filter p))

omit htotal in
/-- An element added to a sorted list stands where its two neighbours allow it. -/
theorem insert_iff {s : α} {us vs m : List α} (hperm : m.Perm (s :: (us ++ vs)))
    (hm : m.Pairwise (Precedes le rank)) (h : (us ++ vs).Pairwise (Precedes le rank)) :
    m = us ++ s :: vs ↔
      (∀ n ∈ us.getLast?, Precedes le rank n s) ∧ ∀ n ∈ vs.head?, Precedes le rank s n := by
  obtain ⟨hus, hvs, huv⟩ := List.pairwise_append.mp h
  constructor
  · rintro rfl
    obtain ⟨_, hs, hus'⟩ := List.pairwise_append.mp hm
    refine ⟨fun n hn => hus' n (List.mem_of_getLast? hn) s List.mem_cons_self, fun n hn => ?_⟩
    exact (List.pairwise_cons.mp hs).1 n (List.mem_of_mem_head? hn)
  · rintro ⟨hlast, hhead⟩
    have hleft : ∀ a ∈ us, Precedes le rank a s := by
      intro a ha
      obtain ⟨init, last, rfl⟩ := List.eq_nil_or_concat us |>.resolve_left (List.ne_nil_of_mem ha)
      rw [List.concat_eq_append] at *
      have hl := hlast last (by simp)
      rcases List.mem_append.mp ha with ha | ha
      · exact ((List.pairwise_append.mp hus).2.2 a ha last (by simp)).trans htrans hl
      · rwa [List.mem_singleton.mp ha]
    have hright : ∀ b ∈ vs, Precedes le rank s b := by
      intro b hb
      cases vs with
      | nil => cases hb
      | cons v vs =>
          have hv := hhead v rfl
          rcases List.mem_cons.mp hb with rfl | hb
          · exact hv
          · exact hv.trans htrans ((List.pairwise_cons.mp hvs).1 b hb)
    refine eq_of_precedes (hperm.trans List.perm_middle.symm) hm ?_
    refine List.pairwise_append.mpr ⟨hus, List.pairwise_cons.mpr ⟨hright, hvs⟩, ?_⟩
    intro a ha b hb
    rcases List.mem_cons.mp hb with rfl | hb
    · exact hleft a ha
    · exact huv a ha b hb

end Sorting

end Stowplan.Stable
