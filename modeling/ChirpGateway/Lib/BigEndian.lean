import Mathlib.Data.Nat.Digits.Defs
import Mathlib.Tactic.Ring

/-!
# Digits with the highest first

The number that digits stand for when the first one is the highest, and how it is read a
digit at a time. Two texts of one length and one number are the same.
-/

namespace BigEndian

/-- The number that the digits stand for. -/
def value (base : Nat) (digits : List Nat) : Nat := Nat.ofDigits base digits.reverse

variable {base : Nat}

@[simp] theorem value_nil : value base [] = 0 := rfl

@[simp] theorem value_singleton (digit : Nat) : value base [digit] = digit :=
  Nat.ofDigits_singleton

theorem value_append (front back : List Nat) :
    value base (front ++ back) = value base front * base ^ back.length + value base back := by
  simp only [value, List.reverse_append, Nat.ofDigits_append, List.length_reverse]
  ring

theorem value_cons (digit : Nat) (digits : List Nat) :
    value base (digit :: digits) = digit * base ^ digits.length + value base digits := by
  rw [← List.singleton_append, value_append, value_singleton]

/-- A digit more. -/
theorem value_concat (digits : List Nat) (digit : Nat) :
    value base (digits ++ [digit]) = value base digits * base + digit := by
  rw [value_append, value_singleton, List.length_singleton, pow_one]

theorem value_replicate_zero (count : Nat) : value base (List.replicate count 0) = 0 := by
  induction count with
  | zero => rfl
  | succ count ih => rw [List.replicate_succ, value_cons, ih, Nat.zero_mul]

/-- Zeros in front do not count. -/
theorem value_dropWhile_zero (digits : List Nat) :
    value base (digits.dropWhile (· = 0)) = value base digits := by
  induction digits with
  | nil => rfl
  | cons digit digits ih =>
    by_cases hzero : digit = 0
    · rw [List.dropWhile_cons_of_pos (by simpa using hzero), ih, value_cons, hzero, Nat.zero_mul,
        Nat.zero_add]
    · rw [List.dropWhile_cons_of_neg (by simpa using hzero)]

theorem value_lt (hbase : 1 < base) {digits : List Nat} (hdigits : ∀ d ∈ digits, d < base) :
    value base digits < base ^ digits.length := by
  rw [← List.length_reverse]
  exact Nat.ofDigits_lt_base_pow_length hbase fun d hd => hdigits d (List.mem_reverse.mp hd)

theorem value_inj (hbase : 1 < base) {digits others : List Nat}
    (hlength : digits.length = others.length) (hdigits : ∀ d ∈ digits, d < base)
    (hothers : ∀ d ∈ others, d < base) (hvalue : value base digits = value base others) :
    digits = others := by
  refine List.reverse_inj.mp (Nat.ofDigits_inj_of_len_eq hbase ?_ ?_ ?_ hvalue)
  · rw [List.length_reverse, List.length_reverse, hlength]
  · exact fun d hd => hdigits d (List.mem_reverse.mp hd)
  · exact fun d hd => hothers d (List.mem_reverse.mp hd)

/-- Without leading zeros the number has its length. -/
theorem pow_le_value (base : Nat) {digit : Nat} (hdigit : digit ≠ 0) (digits : List Nat) :
    base ^ digits.length ≤ value base (digit :: digits) := by
  rw [value_cons]
  have hone : 1 * base ^ digits.length ≤ digit * base ^ digits.length :=
    Nat.mul_le_mul_right _ (Nat.pos_of_ne_zero hdigit)
  omega

/-- Without leading zeros a number has one text only. -/
theorem eq_of_value_eq (hbase : 1 < base) {digits others : List Nat}
    (hdigits : ∀ d ∈ digits, d < base) (hothers : ∀ d ∈ others, d < base)
    (hhead : digits.head? ≠ some 0) (hhead' : others.head? ≠ some 0)
    (hvalue : value base digits = value base others) : digits = others := by
  have hlength {front back : List Nat} (hfront : ∀ d ∈ front, d < base)
      (hback : back.head? ≠ some 0) (heq : value base front = value base back) :
      back.length ≤ front.length := by
    cases back with
    | nil => exact Nat.zero_le _
    | cons digit back =>
      have hdigit : digit ≠ 0 := fun h => hback (by rw [h, List.head?_cons])
      have hle := pow_le_value base hdigit back
      rw [← heq] at hle
      exact (Nat.pow_lt_pow_iff_right hbase).mp (Nat.lt_of_le_of_lt hle (value_lt hbase hfront))
  exact value_inj hbase (Nat.le_antisymm (hlength hothers hhead hvalue.symm)
    (hlength hdigits hhead' hvalue)) hdigits hothers hvalue

end BigEndian
