import Mathlib.Data.List.Sort

/-!
# Sorting with a C comparator

`qsort` only promises that its result is sorted when the comparator is
consistent; where the comparator calls two elements equal, their order is up to
the implementation. A `Sorter` is any function that keeps that promise, and
results proved for every `Sorter` hold for every `qsort`.
-/

namespace Qsort

universe u

variable {α : Type u}

/-- The comparator describes a total preorder, `cmp a b ≤ 0` for "not behind". -/
structure Consistent (cmp : α → α → Int) : Prop where
  total : ∀ a b, cmp a b ≤ 0 ∨ cmp b a ≤ 0
  trans : ∀ a b c, cmp a b ≤ 0 → cmp b c ≤ 0 → cmp a c ≤ 0

/-- A comparator that orders by a key, the greater key first. -/
theorem consistent_of_key {β : Type*} [LinearOrder β] {cmp : α → α → Int} (key : α → β)
    (hcmp : ∀ a b, cmp a b ≤ 0 ↔ key b ≤ key a) : Consistent cmp where
  total a b := by
    rw [hcmp, hcmp]
    exact le_total _ _
  trans a b c := by
    rw [hcmp, hcmp, hcmp]
    exact fun hab hbc => le_trans hbc hab

/-- What `qsort` is relied on for. -/
structure Sorter (α : Type u) where
  sort : (α → α → Int) → List α → List α
  perm : ∀ cmp xs, (sort cmp xs).Perm xs
  sorted : ∀ cmp xs, Consistent cmp → (sort cmp xs).Pairwise fun a b => cmp a b ≤ 0

/-- Insertion sort is one. -/
def insertionSorter (α : Type u) : Sorter α where
  sort cmp xs := xs.insertionSort fun a b => cmp a b ≤ 0
  perm cmp xs := List.perm_insertionSort _ xs
  sorted cmp xs hcmp := by
    have : Std.Total fun a b => cmp a b ≤ 0 := ⟨hcmp.total⟩
    have : IsTrans α fun a b => cmp a b ≤ 0 := ⟨hcmp.trans⟩
    exact List.pairwise_insertionSort _ xs

/-- Where the comparator tells all elements of the list apart, every sorter
    returns the same list. -/
theorem Sorter.sort_eq (sorter : Sorter α) {cmp : α → α → Int} {xs ys : List α}
    (hcmp : Consistent cmp)
    (hstrict : ∀ a ∈ xs, ∀ b ∈ xs, cmp a b ≤ 0 → cmp b a ≤ 0 → a = b)
    (hperm : ys.Perm xs) (hsorted : ys.Pairwise fun a b => cmp a b ≤ 0) :
    sorter.sort cmp xs = ys := by
  refine List.Perm.eq_of_pairwise ?_ (sorter.sorted cmp xs hcmp) hsorted
    ((sorter.perm cmp xs).trans hperm.symm)
  intro a b ha hb hab hba
  exact hstrict a ((sorter.perm cmp xs).mem_iff.mp ha) b (hperm.mem_iff.mp hb) hab hba

end Qsort
