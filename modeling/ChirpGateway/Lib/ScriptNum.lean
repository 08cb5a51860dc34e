import ChirpGateway.Lib.Wire
import Mathlib.Algebra.Group.Int.Defs

/-!
# Numbers of a script

A number on the stack of a script is little-endian, with its sign in the highest bit of the
last byte. In the shortest form the last byte is there for more than the sign.
-/

namespace ScriptNum

open Wire

/-- The number that data denotes. -/
def value (data : List UInt8) : Int :=
  match data.getLast? with
  | none => 0
  | some last =>
    if last < 0x80 then leValue data
    else -(leValue data - 0x80 * 256 ^ (data.length - 1) : Int)

/-- The last byte has more than a sign, or makes room for it above the byte before. -/
def isMinimal (data : List UInt8) : Bool :=
  match data.reverse with
  | [] => true
  | last :: before =>
    last &&& 0x7f ≠ 0 ||
      match before with
      | [] => false
      | previous :: _ => 0x80 ≤ previous

section

variable {front : List UInt8} {top : UInt8}

theorem value_of_lt (h : top < 0x80) : value (front ++ [top]) = leValue (front ++ [top]) := by
  simp [value, h]

/-- A byte of zero behind the highest changes nothing but the sign. -/
theorem value_pad (bytes : List UInt8) : value (bytes ++ [0]) = leValue bytes := by
  rw [value_of_lt (by decide), leValue_append]
  simp [leValue]

theorem isMinimal_of_lt (hpos : top ≠ 0) (h : top < 0x80) :
    isMinimal (front ++ [top]) = true := by
  have hlt : top.toNat < 2 ^ 7 := UInt8.lt_iff_toNat_lt.mp h
  have hkept : top &&& 0x7f = top := by
    apply UInt8.toNat_inj.mp
    rw [UInt8.toNat_and]
    exact (Nat.and_two_pow_sub_one_eq_mod _ 7).trans (Nat.mod_eq_of_lt hlt)
  simp [isMinimal, hkept, hpos]

theorem isMinimal_pad (h : 0x80 ≤ top) : isMinimal (front ++ [top] ++ [0]) = true := by
  simp [isMinimal, h]

end

/-- The shortest form of a number that is not zero, from its highest byte down. -/
def positiveBytes (top n : Nat) : List UInt8 :=
  leBytes (top + 1) n ++ if 0x80 ≤ n / 256 ^ top then [0] else []

section

variable {top n : Nat}

theorem top_lt (hsize : n < 256 ^ (top + 1)) : n / 256 ^ top < 256 :=
  Nat.div_lt_of_lt_mul (by rwa [← Nat.pow_succ])

theorem value_positiveBytes (hsize : n < 256 ^ (top + 1)) : value (positiveBytes top n) = n := by
  unfold positiveBytes
  split_ifs with hsign
  · rw [value_pad, leValue_leBytes_of_lt hsize]
  · have hbyte : (UInt8.ofNat (n / 256 ^ top)).toNat = n / 256 ^ top :=
      UInt8.toNat_ofNat_of_lt' (top_lt hsize)
    have hlow : UInt8.ofNat (n / 256 ^ top) < 0x80 := by
      rw [UInt8.lt_iff_toNat_lt, hbyte]
      exact Nat.lt_of_not_le hsign
    rw [List.append_nil, leBytes_succ_last, value_of_lt hlow, ← leBytes_succ_last,
      leValue_leBytes_of_lt hsize]

theorem isMinimal_positiveBytes (hpos : 256 ^ top ≤ n) (hsize : n < 256 ^ (top + 1)) :
    isMinimal (positiveBytes top n) = true := by
  have hbyte : (UInt8.ofNat (n / 256 ^ top)).toNat = n / 256 ^ top :=
    UInt8.toNat_ofNat_of_lt' (top_lt hsize)
  unfold positiveBytes
  rw [leBytes_succ_last]
  split_ifs with hsign
  · apply isMinimal_pad
    rw [UInt8.le_iff_toNat_le, hbyte]
    exact hsign
  · rw [List.append_nil]
    apply isMinimal_of_lt
    · intro hzero
      have hnone : n / 256 ^ top = 0 := by rw [← hbyte, hzero]; rfl
      rw [Nat.div_eq_zero_iff_lt (Nat.pow_pos (by decide))] at hnone
      omega
    · rw [UInt8.lt_iff_toNat_lt, hbyte]
      exact Nat.lt_of_not_le hsign

end

end ScriptNum
