import Mathlib.Data.List.Sort
import SattLine.Compare.Tree
import SattLine.Proofs.Lists

/-!
Sorting. Main statements: a sorted list does not depend on the order of the items that were given,
and a sorted set holds each of its members once.
-/

namespace SattLine

section MergeSort

variable {α : Type*} {le : α → α → Bool} {xs ys : List α}

/-- An order in which every two items can be put, in one way only unless they are equal. -/
structure Linear (le : α → α → Bool) : Prop where
  trans : ∀ a b c, le a b = true → le b c = true → le a c = true
  total : ∀ a b, (le a b || le b a) = true
  antisymm : ∀ a b, le a b = true → le b a = true → a = b

theorem Linear.mergeSort_eq (h : Linear le) (hperm : xs.Perm ys) :
    xs.mergeSort le = ys.mergeSort le := by
  refine List.Perm.eq_of_pairwise (fun a b _ _ => h.antisymm a b)
    (List.pairwise_mergeSort h.trans h.total xs) (List.pairwise_mergeSort h.trans h.total ys) ?_
  exact (List.mergeSort_perm xs le).trans (hperm.trans (List.mergeSort_perm ys le).symm)

variable [BEq α] [LawfulBEq α]

theorem mem_mergeSort_eraseDups {a : α} : a ∈ xs.eraseDups.mergeSort le ↔ a ∈ xs := by
  rw [List.mem_mergeSort, List.mem_eraseDups]

end MergeSort

namespace Text

theorem not_lt_iff_le {a b : String} : (!(b < a : Bool)) = true ↔ a ≤ b := by
  rw [Bool.not_eq_true', decide_eq_false_iff_not, String.not_lt]

theorem linear_le : Linear fun a b : String => !(b < a : Bool) := by
  refine ⟨fun a b c hab hbc => ?_, fun a b => ?_, fun a b hab hba => ?_⟩
  · exact not_lt_iff_le.mpr (String.le_trans (not_lt_iff_le.mp hab) (not_lt_iff_le.mp hbc))
  · rw [Bool.or_eq_true, not_lt_iff_le, not_lt_iff_le]
    exact String.le_total a b
  · exact String.le_antisymm (not_lt_iff_le.mp hab) (not_lt_iff_le.mp hba)

theorem sorted_eq_of_perm {names others : List String} (h : names.Perm others) :
    sorted names = sorted others :=
  linear_le.mergeSort_eq h

theorem mem_sortedSet {names : List String} {name : String} : name ∈ sortedSet names ↔ name ∈ names :=
  mem_mergeSort_eraseDups

/-- A sorted set holds each of its members once. -/
theorem pairwise_sortedSet (names : List String) : (sortedSet names).Pairwise (· < ·) := by
  have hsorted := List.pairwise_mergeSort linear_le.trans linear_le.total names.eraseDups
  have hnodup : (sortedSet names).Nodup :=
    (List.mergeSort_perm _ _).nodup_iff.mpr (nodup_eraseDups names)
  refine (hsorted.and hnodup).imp fun {a b} h => ?_
  have hle : a ≤ b := not_lt_iff_le.mp h.1
  exact Decidable.byContradiction fun hlt => h.2 (String.le_antisymm hle (String.not_lt.mp hlt))

end Text

end SattLine
