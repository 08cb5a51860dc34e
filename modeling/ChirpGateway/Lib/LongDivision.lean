import ChirpGateway.Lib.Wire
import Mathlib.Tactic.Ring

/-!
# Division word by word, shift byte by byte

A number is divided by going through its digits from the highest, with the remainder in front
of the next one. One that is held in little-endian bytes is divided by a power of two by
dropping bytes, and by moving bits from each byte to the one below.
-/

namespace LongDivision

open Wire

/-! ## Digits -/

section

variable {base divisor : Nat} (value digit : Nat)

theorem div_digit (hdivisor : 0 < divisor) : (value * base + digit) / divisor =
    (value % divisor * base + digit) / divisor + base * (value / divisor) := by
  have hvalue : value * base + digit =
      (value % divisor * base + digit) + divisor * (base * (value / divisor)) := by
    calc value * base + digit
        = (divisor * (value / divisor) + value % divisor) * base + digit := by
          rw [Nat.div_add_mod]
      _ = _ := by ring
  rw [hvalue, Nat.add_mul_div_left _ _ hdivisor]

theorem mod_digit : (value * base + digit) % divisor =
    (value % divisor * base + digit) % divisor := by
  rw [← Nat.mod_add_mod, ← Nat.mod_mul_mod, Nat.mod_add_mod]

/-- A digit of the quotient is a digit. -/
theorem digit_lt (hdivisor : 0 < divisor) (hdigit : digit < base) :
    (value % divisor * base + digit) / divisor < base := by
  rw [Nat.div_lt_iff_lt_mul hdivisor]
  have hremainder := Nat.mul_le_mul_right base (Nat.mod_lt value hdivisor)
  rw [Nat.succ_mul, Nat.mul_comm divisor] at hremainder
  omega

end

/-! ## Bits -/

/-- A byte that is moved down by some bits, with those of the next one above. -/
def moveBits (bits : Nat) (low high : UInt8) : UInt8 :=
  (low >>> UInt8.ofNat bits) ||| (high <<< UInt8.ofNat (8 - bits))

theorem toNat_moveBits {bits : Nat} (hpos : 0 < bits) (hbits : bits < 8) (low high : UInt8) :
    (moveBits bits low high).toNat =
      low.toNat / 2 ^ bits + 2 ^ (8 - bits) * high.toNat % 256 := by
  have hsize : UInt8.size = 256 := rfl
  have hdown : (UInt8.ofNat bits).toNat = bits := UInt8.toNat_ofNat_of_lt' (by omega)
  have hup : (UInt8.ofNat (8 - bits)).toNat = 8 - bits := UInt8.toNat_ofNat_of_lt' (by omega)
  have hpow : 2 ^ (8 - bits) * 2 ^ bits = 256 := by
    rw [← Nat.pow_add, Nat.sub_add_cancel (Nat.le_of_lt hbits)]
  have hlow : low.toNat / 2 ^ bits < 2 ^ (8 - bits) := by
    rw [Nat.div_lt_iff_lt_mul (Nat.two_pow_pos bits), hpow]
    exact low.toNat_lt
  rw [moveBits, UInt8.toNat_or, UInt8.toNat_shiftRight, UInt8.toNat_shiftLeft, hdown, hup,
    Nat.mod_eq_of_lt hbits, Nat.mod_eq_of_lt (show 8 - bits < 8 by omega),
    Nat.shiftRight_eq_div_pow,
    Nat.shiftLeft_eq, Nat.mul_comm high.toNat]
  have hmod : 2 ^ (8 - bits) * high.toNat % 256 = 2 ^ (8 - bits) * (high.toNat % 2 ^ bits) := by
    rw [← hpow, Nat.mul_mod_mul_left]
  rw [show (2 ^ 8 : Nat) = 256 from rfl, hmod, Nat.or_comm, ← Nat.two_pow_add_eq_or_of_lt hlow,
    Nat.add_comm]

/-- What is moved up from a byte is what the next one loses. -/
theorem div_two_pow_byte {bits : Nat} (hbits : bits < 8) (byte rest : Nat) :
    (byte + 256 * rest) / 2 ^ bits =
      byte / 2 ^ bits + 2 ^ (8 - bits) * rest % 256 + 256 * (rest / 2 ^ bits) := by
  have hpow : 2 ^ bits * 2 ^ (8 - bits) = 256 := by
    rw [← Nat.pow_add, Nat.add_sub_cancel' (Nat.le_of_lt hbits)]
  have hpos : 0 < 2 ^ bits := Nat.two_pow_pos bits
  have hother : 0 < 2 ^ (8 - bits) := Nat.two_pow_pos _
  have hhigh : 2 ^ (8 - bits) * rest / 256 = rest / 2 ^ bits := by
    rw [← hpow, Nat.mul_comm (2 ^ bits), Nat.mul_div_mul_left _ _ hother]
  have hsplit := Nat.mod_add_div (2 ^ (8 - bits) * rest) 256
  rw [hhigh] at hsplit
  rw [Nat.add_assoc, hsplit, ← hpow, Nat.mul_assoc, Nat.add_mul_div_left _ _ hpos]

/-- Moving bits from each byte to the one below divides by a power of two. -/
theorem leValue_moveBits {bits : Nat} (hpos : 0 < bits) (hbits : bits < 8) (bytes : List UInt8) :
    leValue (List.zipWith (moveBits bits) bytes (bytes.tail ++ [0])) =
      leValue bytes / 2 ^ bits := by
  induction bytes with
  | nil => exact (Nat.zero_div _).symm
  | cons byte bytes ih =>
    have hcons (byte : UInt8) (bytes : List UInt8) :
        leValue (byte :: bytes) = byte.toNat + 256 * leValue bytes := rfl
    cases bytes with
    | nil =>
      show (moveBits bits byte 0).toNat + 256 * 0 = (byte.toNat + 256 * 0) / 2 ^ bits
      rw [toNat_moveBits hpos hbits]
      simp
    | cons next bytes =>
      have hnext : 2 ^ (8 - bits) * next.toNat % 256 =
          2 ^ (8 - bits) * leValue (next :: bytes) % 256 := by
        rw [hcons, Nat.mul_add, Nat.mul_left_comm, Nat.add_mul_mod_self_left]
      rw [hcons byte, div_two_pow_byte hbits, ← hnext, ← ih, ← toNat_moveBits hpos hbits]
      rfl

end LongDivision
