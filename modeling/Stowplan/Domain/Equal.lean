/-
  File:      Stowplan/Domain/Equal.lean
  Subject:   THE COMPARISON OF VALUES (`equal` of commands.ts).

  Conflicts, changed fields and reviewed lists are all decided by `equal`: objects compare by
  their sorted keys and then key by key, arrays by length and position. An object compares to
  an array by its keys alone, since the branch for objects asks nothing of the right side.
-/
import Stowplan.Js.Utf16
import Stowplan.Js.Value
import Mathlib.Data.List.Sort

namespace Stowplan

open JsValue

variable {ν : Type}

/-- `[...strings].sort()`: by the units of the strings. -/
def sortStrings (l : List String) : List String := l.insertionSort Utf16Le

/-- What `Object.keys` and indexing see of a value: an array lists its positions. -/
def ownEntries : JsValue ν → List (String × JsValue ν)
  | .obj fields => fields
  | .arr xs => xs.zipIdx.map fun p => (toString p.2, p.1)
  | _ => []

mutual

/-- `equal(left, right)`; equality of the numbers is `Object.is`. -/
def equal [DecidableEq ν] : JsValue ν → JsValue ν → Bool
  | .undefined, .undefined => true
  | .null, .null => true
  | .bool a, .bool b => a == b
  | .num a, .num b => decide (a = b)
  | .str a, .str b => a == b
  | .arr a, .arr b => equalElems a b
  | .obj a, .obj b =>
      (sortStrings (a.map (·.1)) == sortStrings (b.map (·.1))) && equalEntries a b
  | .obj a, .arr b =>
      (sortStrings (a.map (·.1)) == sortStrings ((ownEntries (.arr b)).map (·.1))) &&
        equalEntries a (ownEntries (.arr b))
  | _, _ => false

/-- Arrays are compared element by element. -/
def equalElems [DecidableEq ν] : List (JsValue ν) → List (JsValue ν) → Bool
  | [], [] => true
  | x :: xs, y :: ys => equal x y && equalElems xs ys
  | _, _ => false

/-- Every entry on the left finds an equal value on the right. -/
def equalEntries [DecidableEq ν] :
    List (String × JsValue ν) → List (String × JsValue ν) → Bool
  | [], _ => true
  | (k, v) :: rest, right => equal v (lookup k right) && equalEntries rest right

end

mutual

/-- A value equals itself. -/
theorem equal_self : ∀ v : JsValue, proper v = true → equal v v = true
  | .undefined, _ => rfl
  | .null, _ => rfl
  | .bool _, _ => by simp [equal]
  | .num _, _ => by simp [equal]
  | .str _, _ => by simp [equal]
  | .arr xs, h => by
      simp only [proper] at h
      simpa only [equal] using equalElems_self xs h
  | .obj fs, h => by
      simp only [proper, Bool.and_eq_true, decide_eq_true_eq] at h
      simp only [equal, beq_self_eq_true, Bool.true_and]
      exact equalEntries_self fs fs h.1 h.2 (fun _ hp => hp)

theorem equalElems_self : ∀ xs : List JsValue, properList xs = true → equalElems xs xs = true
  | [], _ => rfl
  | x :: xs, h => by
      simp only [properList, Bool.and_eq_true] at h
      simp [equalElems, equal_self x h.1, equalElems_self xs h.2]

theorem equalEntries_self : ∀ fs all : List (String × JsValue), (all.map (·.1)).Nodup →
    properFields fs = true → (∀ p ∈ fs, p ∈ all) → equalEntries fs all = true
  | [], _, _, _, _ => rfl
  | (k, v) :: rest, all, hn, h, hsub => by
      simp only [properFields, Bool.and_eq_true] at h
      have hk : lookup k all = v := lookup_of_mem hn (hsub _ List.mem_cons_self)
      simp only [equalEntries, hk, equal_self v h.1, Bool.true_and]
      exact equalEntries_self rest all hn h.2 (fun p hp => hsub p (List.mem_cons_of_mem _ hp))

end

/-- Sorting keeps the texts. -/
theorem perm_sortStrings (l : List String) : (sortStrings l).Perm l := List.perm_insertionSort _ l

@[simp] theorem mem_sortStrings {l : List String} {x : String} : x ∈ sortStrings l ↔ x ∈ l :=
  (perm_sortStrings l).mem_iff

/-- Sorting decides whether two lists hold the same strings. -/
theorem sortStrings_eq_iff {a b : List String} : sortStrings a = sortStrings b ↔ a.Perm b := by
  unfold sortStrings
  constructor
  · intro h
    exact ((List.perm_insertionSort _ a).symm.trans (List.Perm.of_eq h)).trans
      (List.perm_insertionSort _ b)
  · intro h
    refine List.Perm.eq_of_pairwise (fun x y _ _ (hx : Utf16Le x y) hy => hx.antisymm hy)
      (List.pairwise_insertionSort _ a) (List.pairwise_insertionSort _ b) ?_
    exact ((List.perm_insertionSort _ a).trans h).trans (List.perm_insertionSort _ b).symm

/-- Entry lists with the same keys in the same places compare place by place. -/
theorem forall₂_of_equalEntries : ∀ {a b all : List (String × JsValue)},
    (all.map (·.1)).Nodup → a.map (·.1) = b.map (·.1) → (∀ p ∈ b, p ∈ all) →
    equalEntries a all = true → List.Forall₂ (fun p q => equal p.2 q.2 = true) a b
  | [], b, _, _, hk, _, _ => by
      have : b = [] := by simpa using hk.symm
      subst this
      exact .nil
  | (k, v) :: a, b, all, hn, hk, hsub, h => by
      cases b with
      | nil => simp at hk
      | cons q b =>
          obtain ⟨l, w⟩ := q
          simp only [List.map_cons, List.cons.injEq] at hk
          obtain ⟨rfl, hk⟩ := hk
          simp only [equalEntries, Bool.and_eq_true] at h
          have hw : lookup k all = w := lookup_of_mem hn (hsub _ List.mem_cons_self)
          rw [hw] at h
          exact .cons h.1 (forall₂_of_equalEntries hn hk
            (fun p hp => hsub p (List.mem_cons_of_mem _ hp)) h.2)

/-- Objects with the same keys in the same places are equal when their values are. -/
theorem forall₂_of_equal {a b : List (String × JsValue)} (hn : (b.map (·.1)).Nodup)
    (hk : a.map (·.1) = b.map (·.1)) (h : equal (.obj a) (.obj b) = true) :
    List.Forall₂ (fun p q => equal p.2 q.2 = true) a b := by
  simp only [equal, Bool.and_eq_true] at h
  exact forall₂_of_equalEntries hn hk (fun _ hp => hp) h.2

/-- Equal objects have the same keys. -/
theorem keys_perm_of_equal {a b : List (String × JsValue)} (h : equal (.obj a) (.obj b) = true) :
    (a.map (·.1)).Perm (b.map (·.1)) := by
  simp only [equal, Bool.and_eq_true, beq_iff_eq] at h
  exact sortStrings_eq_iff.mp h.1

end Stowplan
