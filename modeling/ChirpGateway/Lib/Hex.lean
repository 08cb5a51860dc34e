import Mathlib.Data.List.Basic
import Mathlib.Data.Nat.Notation

/-!
# Hexadecimal text

Two digits a byte. The decoder is a table of all pairs of one case: what is no
such pair reads as zero.
-/

namespace Hex

/-- A lower-case digit. -/
def digit (n : Nat) : UInt8 := UInt8.ofNat (if n < 10 then 48 + n else 87 + n)

/-- The two digits of a byte. -/
def encodeByte (byte : UInt8) : List UInt8 :=
  [digit (byte.toNat / 16), digit (byte.toNat % 16)]

/-- The digits of a byte string. -/
def encode (bytes : List UInt8) : List UInt8 := bytes.flatMap encodeByte

/-- The value of a digit whose letters start behind `first`. -/
def digitValue (first : Nat) (ch : UInt8) : Option Nat :=
  if 48 ≤ ch.toNat ∧ ch.toNat ≤ 57 then some (ch.toNat - 48)
  else if first ≤ ch.toNat ∧ ch.toNat < first + 6 then some (ch.toNat - first + 10)
  else none

/-- The value of two digits of one case. -/
def pairValue (first : Nat) (hi lo : UInt8) : Option UInt8 :=
  (digitValue first hi).bind fun h => (digitValue first lo).map fun l => UInt8.ofNat (16 * h + l)

/-- The table entry of two characters. -/
def lookup (hi lo : UInt8) : UInt8 :=
  ((pairValue 97 hi lo).or (pairValue 65 hi lo)).getD 0

/-- Character by character, two at a time; a last one is read with the
    terminator. -/
def decode : List UInt8 → List UInt8
  | [] => []
  | [hi] => [lookup hi 0]
  | hi :: lo :: rest => lookup hi lo :: decode rest

theorem digitValue_digit {n : Nat} (hn : n < 16) : digitValue 97 (digit n) = some n := by
  have hall : ∀ m : Fin 16, digitValue 97 (digit m) = some m.val := by decide
  exact hall ⟨n, hn⟩

theorem lookup_encodeByte (byte : UInt8) :
    lookup (digit (byte.toNat / 16)) (digit (byte.toNat % 16)) = byte := by
  have hlt := byte.toNat_lt
  have hhi := digitValue_digit (n := byte.toNat / 16) (by omega)
  have hlo := digitValue_digit (n := byte.toNat % 16) (by omega)
  have hvalue : 16 * (byte.toNat / 16) + byte.toNat % 16 = byte.toNat := Nat.div_add_mod _ 16
  simp only [lookup, pairValue, hhi, hlo, Option.bind_some, Option.map_some, Option.some_or,
    Option.getD_some, hvalue, UInt8.ofNat_toNat]

/-- Encoded bytes are read back, whatever follows them. -/
theorem decode_encode_append (bytes rest : List UInt8) :
    decode (encode bytes ++ rest) = bytes ++ decode rest := by
  induction bytes with
  | nil => rfl
  | cons byte bytes ih =>
    have hcons : encode (byte :: bytes) ++ rest =
        digit (byte.toNat / 16) :: digit (byte.toNat % 16) :: (encode bytes ++ rest) := rfl
    rw [hcons, decode, lookup_encodeByte, ih, List.cons_append]

theorem decode_encode (bytes : List UInt8) : decode (encode bytes) = bytes := by
  simpa [decode] using decode_encode_append bytes []

/-- Whole bytes are read before what follows them. -/
theorem decode_append_of_even {text : List UInt8} (heven : text.length % 2 = 0)
    (rest : List UInt8) : decode (text ++ rest) = decode text ++ decode rest := by
  induction text using decode.induct with
  | case1 => rfl
  | case2 hi => cases heven
  | case3 hi lo text ih =>
    rw [List.length_cons, List.length_cons] at heven
    rw [List.cons_append, List.cons_append, decode, decode, ih (by omega), List.cons_append]

/-- No digit is a terminator. -/
theorem zero_notMem_encode (bytes : List UInt8) : 0 ∉ encode bytes := by
  have hdigit : ∀ m : Fin 16, digit m ≠ 0 := by decide
  intro hmem
  obtain ⟨byte, -, hbyte⟩ := List.mem_flatMap.mp hmem
  have hlt := byte.toNat_lt
  rcases List.mem_cons.mp hbyte with hzero | hbyte
  · exact hdigit ⟨byte.toNat / 16, by omega⟩ hzero.symm
  · rw [List.mem_singleton] at hbyte
    exact hdigit ⟨byte.toNat % 16, by omega⟩ hbyte.symm

theorem length_encode (bytes : List UInt8) : (encode bytes).length = 2 * bytes.length := by
  induction bytes with
  | nil => rfl
  | cons byte bytes ih =>
    have hcons : (encode (byte :: bytes)).length = (encode bytes).length + 2 := rfl
    rw [hcons, ih, List.length_cons, Nat.mul_add]

/-- Each byte is found at its two digits. -/
theorem lookup_encode {bytes : List UInt8} {i : Nat} {byte : UInt8} (h : bytes[i]? = some byte) :
    lookup ((encode bytes).getD (2 * i) 0) ((encode bytes).getD (2 * i + 1) 0) = byte := by
  induction bytes generalizing i with
  | nil => cases h
  | cons first bytes ih =>
    have hcons : encode (first :: bytes) =
        digit (first.toNat / 16) :: digit (first.toNat % 16) :: encode bytes := rfl
    cases i with
    | zero =>
      obtain rfl := Option.some.inj h
      exact lookup_encodeByte first
    | succ i =>
      rw [hcons, Nat.mul_succ]
      exact ih h

theorem length_decode (text : List UInt8) : (decode text).length = (text.length + 1) / 2 := by
  induction text using decode.induct with
  | case1 => rfl
  | case2 hi => simp [decode]
  | case3 hi lo rest ih =>
    rw [decode, List.length_cons, ih, List.length_cons, List.length_cons]
    omega

end Hex
