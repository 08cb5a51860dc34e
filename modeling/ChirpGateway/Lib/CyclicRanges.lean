import Mathlib.Data.Nat.Bitwise
import Mathlib.Data.Nat.ModEq
import Mathlib.Algebra.Order.Group.Abs
import Mathlib.Tactic.Ring

/-!
# Ranges on a circle

Two counters modulo `n` that start far enough from each other do not meet. A start is far
from the same with the bits of a mask turned over, by about the highest bit of the mask.
-/

namespace CyclicRanges

/-- On a circle of `n` places, neither is reached from the other in less than `count` steps. -/
def Apart (n count a b : Nat) : Prop :=
  a + count ≤ b ∧ b + count ≤ a + n ∨ b + count ≤ a ∧ a + count ≤ b + n

/-- Counters that start apart do not meet within so many steps. -/
theorem Apart.mod_ne {n count a b : Nat} (h : Apart n count a b) {i j : Nat} (hi : i < count)
    (hj : j < count) : (a + i) % n ≠ (b + j) % n := by
  intro hmod
  have hsame : a + i = b + j := by
    refine Nat.ModEq.eq_of_abs_lt hmod ?_
    rw [abs_lt]
    unfold Apart at h
    push_cast
    omega
  unfold Apart at h
  omega

theorem Apart.mono {n count less a b : Nat} (h : Apart n count a b) (hless : less ≤ count) :
    Apart n less a b := by
  unfold Apart at h ⊢
  omega

/-- Numbers whose higher digits are apart are apart, whatever their lowest digits are. -/
theorem Apart.digit {base n count a b : Nat} (h : Apart n (count + 1) a b) {low other : Nat}
    (hlow : low < base) (hother : other < base) :
    Apart (base * n) (base * count + 1) (low + base * a) (other + base * b) := by
  have hscaled {p q : Nat} (hle : p ≤ q) : base * p ≤ base * q := Nat.mul_le_mul_left base hle
  rcases h with ⟨hab, hba⟩ | ⟨hba, hab⟩
  · left
    have hnear := hscaled hab
    have hfar := hscaled hba
    simp only [Nat.mul_add, Nat.mul_one] at hnear hfar
    omega
  · right
    have hnear := hscaled hba
    have hfar := hscaled hab
    simp only [Nat.mul_add, Nat.mul_one] at hnear hfar
    omega

theorem xor_le_add (x y : Nat) : x ^^^ y ≤ x + y := by
  induction x using Nat.strongRecOn generalizing y with
  | ind x ih =>
    by_cases hzero : x = 0
    · rw [hzero, Nat.zero_xor, Nat.zero_add]
    · have hhalf := ih (x / 2) (Nat.div_lt_self (Nat.pos_of_ne_zero hzero) (by decide)) (y / 2)
      have hdiv : (x ^^^ y) / 2 = x / 2 ^^^ y / 2 := Nat.xor_div_two
      have hmod : (x ^^^ y) % 2 = (x + y) % 2 := Nat.xor_mod_two_eq
      omega

theorem le_xor_add (x y : Nat) : x ≤ (x ^^^ y) + y := by
  calc x = (x ^^^ y) ^^^ y := by rw [Nat.xor_assoc, Nat.xor_self, Nat.xor_zero]
    _ ≤ (x ^^^ y) + y := xor_le_add _ _

/-- Turning over a bit, and some below it, moves a number by that bit, up to those below. -/
theorem xor_mask (x : Nat) {k low : Nat} (hlow : low < 2 ^ k) :
    x + 2 ^ k ≤ (x ^^^ (2 ^ k + low)) + low ∧ (x ^^^ (2 ^ k + low)) ≤ x + 2 ^ k + low ∨
      (x ^^^ (2 ^ k + low)) + 2 ^ k ≤ x + low ∧ x ≤ (x ^^^ (2 ^ k + low)) + 2 ^ k + low := by
  have hpos : 0 < 2 ^ k := Nat.two_pow_pos k
  have hmaskDiv : (2 ^ k + low) / 2 ^ k = 1 := by
    rw [Nat.add_div_left _ hpos, Nat.div_eq_of_lt hlow]
  have hmaskMod : (2 ^ k + low) % 2 ^ k = low := by
    rw [Nat.add_mod_left, Nat.mod_eq_of_lt hlow]
  have hdiv : (x ^^^ (2 ^ k + low)) / 2 ^ k = x / 2 ^ k ^^^ 1 := by
    rw [Nat.xor_div_two_pow, hmaskDiv]
  have hmod : (x ^^^ (2 ^ k + low)) % 2 ^ k = x % 2 ^ k ^^^ low := by
    rw [Nat.xor_mod_two_pow, hmaskMod]
  have hx := Nat.div_add_mod x (2 ^ k)
  have hy := Nat.div_add_mod (x ^^^ (2 ^ k + low)) (2 ^ k)
  rw [hdiv, hmod] at hy
  have hup := xor_le_add (x % 2 ^ k) low
  have hdown := le_xor_add (x % 2 ^ k) low
  rcases Nat.even_or_odd (x / 2 ^ k) with heven | hodd
  · left
    rw [Nat.xor_one_of_even heven, Nat.mul_add, Nat.mul_one] at hy
    omega
  · right
    obtain ⟨half, hhalf⟩ := hodd
    rw [Nat.xor_one_of_odd ⟨half, hhalf⟩, hhalf, Nat.add_sub_cancel] at hy
    rw [hhalf, Nat.mul_add, Nat.mul_one] at hx
    omega

end CyclicRanges
