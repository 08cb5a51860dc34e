import Mathlib.Algebra.GroupWithZero.Nat
import Mathlib.Algebra.Order.BigOperators.Group.List

/-!
# Filling a budget from the front of a list

Entries are taken in order as long as their costs add up to at most the budget;
the first entry that does not fit ends it. The result is the longest prefix
within the budget.
-/

namespace Budget

universe u

variable {α : Type u}

/-- The entries taken when `used` of the budget is already spent. -/
def takeWithin (cost : α → Nat) (budget : Nat) : (used : Nat) → List α → List α
  | _, [] => []
  | used, x :: xs =>
    if used + cost x > budget then
      []
    else
      x :: takeWithin cost budget (used + cost x) xs

variable {cost : α → Nat} {budget : Nat}

theorem takeWithin_isFront (used : Nat) (xs : List α) :
    takeWithin cost budget used xs <+: xs := by
  induction xs generalizing used with
  | nil => exact List.prefix_rfl
  | cons x xs ih =>
    simp only [takeWithin]
    split
    · exact List.nil_prefix
    · exact List.cons_prefix_cons.mpr ⟨rfl, ih _⟩

theorem takeWithin_cost_le (used : Nat) (xs : List α) (hused : used ≤ budget) :
    used + ((takeWithin cost budget used xs).map cost).sum ≤ budget := by
  induction xs generalizing used with
  | nil => simpa [takeWithin] using hused
  | cons x xs ih =>
    simp only [takeWithin]
    split
    · simpa using hused
    · next hfits =>
      have hrest := ih (used + cost x) (by omega)
      simp only [List.map_cons, List.sum_cons]
      omega

/-- Every prefix within the budget is a prefix of what is taken. -/
theorem prefix_takeWithin (used : Nat) {xs ys : List α} (hfront : ys <+: xs)
    (hcost : used + (ys.map cost).sum ≤ budget) : ys <+: takeWithin cost budget used xs := by
  induction xs generalizing used ys with
  | nil =>
    rw [List.prefix_nil.mp hfront]
    exact List.nil_prefix
  | cons x xs ih =>
    cases ys with
    | nil => exact List.nil_prefix
    | cons y ys =>
      obtain ⟨rfl, hrest⟩ := List.cons_prefix_cons.mp hfront
      simp only [List.map_cons, List.sum_cons] at hcost
      simp only [takeWithin]
      rw [if_neg (by omega)]
      exact List.cons_prefix_cons.mpr ⟨rfl, ih _ hrest (by omega)⟩

/-- Nothing is cut when everything fits. -/
theorem takeWithin_eq_self {used : Nat} {xs : List α}
    (hcost : used + (xs.map cost).sum ≤ budget) : takeWithin cost budget used xs = xs :=
  (takeWithin_isFront used xs).eq_of_length_le
    (prefix_takeWithin used List.prefix_rfl hcost).length_le

end Budget
