import Mathlib.Algebra.Order.Floor.Semiring
import Mathlib.Algebra.Order.Field.Basic
import Mathlib.Algebra.BigOperators.Group.List.Basic
import Mathlib.Tactic.Ring

/-!
# Shares rounded down

An amount divided among weights in proportion, each share rounded down. The
shares never add up to more than the amount, and a share shrinks when the total
weight it is measured against grows.
-/

namespace FloorShare

universe u

variable {K : Type u} [Field K] [LinearOrder K] [IsStrictOrderedRing K] [FloorSemiring K]

/-- The part of `amount` that `weight` out of `total` gets. -/
def share (amount : Nat) (total weight : K) : Nat :=
  ⌊(amount : K) * (weight / total)⌋₊

theorem share_cast_le {amount : Nat} {total weight : K} (hweight : 0 ≤ weight)
    (htotal : 0 ≤ total) : (share amount total weight : K) ≤ amount * (weight / total) :=
  Nat.floor_le (mul_nonneg (Nat.cast_nonneg _) (div_nonneg hweight htotal))

/-- Shares of weights within the total stay within the amount. -/
theorem sum_share_le {amount : Nat} {total : K} {weights : List K}
    (hpos : ∀ weight ∈ weights, 0 ≤ weight) (htotal : 0 < total)
    (hsum : weights.sum ≤ total) :
    (weights.map (share amount total)).sum ≤ amount := by
  have hcast : (((weights.map (share amount total)).sum : Nat) : K) ≤
      amount * (weights.sum / total) := by
    clear hsum
    induction weights with
    | nil => simp
    | cons weight weights ih =>
      have hhead : (share amount total weight : K) ≤ amount * (weight / total) :=
        share_cast_le (hpos weight List.mem_cons_self) htotal.le
      have htail := ih fun w hw => hpos w (List.mem_cons_of_mem _ hw)
      simp only [List.map_cons, List.sum_cons, Nat.cast_add]
      calc (share amount total weight : K) + ((weights.map (share amount total)).sum : Nat)
          ≤ amount * (weight / total) + amount * (weights.sum / total) := add_le_add hhead htail
        _ = amount * ((weight + weights.sum) / total) := by ring
  have hratio : weights.sum / total ≤ 1 := (div_le_one htotal).mpr hsum
  have hamount : (amount : K) * (weights.sum / total) ≤ amount :=
    mul_le_of_le_one_right (Nat.cast_nonneg _) hratio
  exact_mod_cast hcast.trans hamount

end FloorShare
