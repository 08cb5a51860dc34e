import ChirpGateway.Lib.Bytes
import Mathlib.Tactic.Ring
import Mathlib.Tactic.Tauto

/-!
# Base58 addresses

`b58tobin`, `b58check` and `blkmk_address_to_script` of
`thirdparty_base58.c:45-190`, for the 25 bytes of an address. The seven 32-bit
limbs of the source are one number here; a carry out of the top byte is the
number reaching 2²⁰⁰.
-/

namespace ChirpGateway

open Bytes

/-- `b58digits_ordered`. -/
def b58Digits : List UInt8 :=
  ascii "123456789ABCDEFGHJKLMNPQRSTUVWXYZabcdefghijkmnopqrstuvwxyz"

/-- `b58digits_map`. -/
def b58DigitsMap (ch : UInt8) : Option Nat := b58Digits.idxOf? ch

/-- Appending digits to a number, failing on a character that is no digit and
    on a number of more than 25 bytes. -/
def b58Value : (n : Nat) → List UInt8 → Option Nat
  | n, [] => some n
  | n, ch :: rest =>
    match b58DigitsMap ch with
    | none => none
    | some digit => if n * 58 + digit < 2 ^ 200 then b58Value (n * 58 + digit) rest else none

/-- The bytes of a number, most significant first. -/
def beBytes : (size n : Nat) → List UInt8
  | 0, _ => []
  | size + 1, n => UInt8.ofNat (n / 256 ^ size) :: beBytes size n

/-- `b58tobin` into 25 bytes. -/
def b58tobin (b58 : List UInt8) : Option (List UInt8) :=
  (b58Value 0 b58).map (beBytes 25)

/-- `b58check`: the version byte, if the checksum fits and the text has as many
    leading ones as there are zero bytes. The source would read past the array
    only for 25 zero bytes. -/
def b58check (sha256 : List UInt8 → List UInt8) (bin base58str : List UInt8) : Option UInt8 :=
  if bin.drop 21 ≠ (sha256 (sha256 (bin.take 21))).take 4 then
    none
  else
    let zeros := ((bin.zip base58str).takeWhile fun pair => pair.1 = 0 && pair.2 = 49).length
    if bin.getD zeros 0xff = 0 || base58str.getD zeros 0 = 49 then none else bin.head?

/-- `blkmk_address_to_script` into a buffer that has room for the script. -/
def blkmkAddressToScript (sha256 : List UInt8 → List UInt8) (addr : List UInt8) :
    Option (List UInt8) :=
  match b58tobin addr with
  | none => none
  | some addrbin =>
    let hash := (addrbin.drop 1).take 20
    match b58check sha256 addrbin addr with
    | none => none
    | some version =>
      if version = 0 || version = 111 then
        some ([0x76, 0xa9, 0x14] ++ hash ++ [0x88, 0xac])
      else if version = 5 || version = 196 then
        some ([0xa9, 0x14] ++ hash ++ [0x87])
      else
        none

/-! ## How a text bounds its number -/

theorem b58DigitsMap_lt {ch : UInt8} {digit : Nat} (h : b58DigitsMap ch = some digit) :
    digit < 58 := by
  have hlen : b58Digits.length = 58 := by decide
  obtain ⟨hdigit, -⟩ := List.idxOf?_eq_some_iff.mp h
  omega

theorem b58Value_cons {n m : Nat} {ch : UInt8} {rest : List UInt8}
    (h : b58Value n (ch :: rest) = some m) :
    ∃ digit, b58DigitsMap ch = some digit ∧ n * 58 + digit < 2 ^ 200 ∧
      b58Value (n * 58 + digit) rest = some m := by
  simp only [b58Value] at h
  split at h
  · cases h
  · next digit hdigit =>
    split at h
    · next hlt => exact ⟨digit, hdigit, hlt, h⟩
    · cases h

theorem b58Value_lt {text : List UInt8} {n m : Nat} (hn : n < 2 ^ 200)
    (h : b58Value n text = some m) : m < 2 ^ 200 := by
  induction text generalizing n with
  | nil =>
    cases h
    exact hn
  | cons ch rest ih =>
    obtain ⟨digit, -, hlt, hrest⟩ := b58Value_cons h
    exact ih hlt hrest

/-- Every further digit moves the number within the range its first digits
    leave. -/
theorem b58Value_bounds {text : List UInt8} {n m : Nat} (h : b58Value n text = some m) :
    n * 58 ^ text.length ≤ m ∧ m < (n + 1) * 58 ^ text.length := by
  induction text generalizing n with
  | nil =>
    cases h
    simp
  | cons ch rest ih =>
    obtain ⟨digit, hdigit, -, hrest⟩ := b58Value_cons h
    have hlt := b58DigitsMap_lt hdigit
    obtain ⟨hlow, hhigh⟩ := ih hrest
    constructor
    · calc n * 58 ^ (rest.length + 1) = (n * 58) * 58 ^ rest.length := by ring
        _ ≤ (n * 58 + digit) * 58 ^ rest.length := Nat.mul_le_mul_right _ (by omega)
        _ ≤ m := hlow
    · calc m < (n * 58 + digit + 1) * 58 ^ rest.length := hhigh
        _ ≤ ((n + 1) * 58) * 58 ^ rest.length := Nat.mul_le_mul_right _ (by omega)
        _ = (n + 1) * 58 ^ (rest.length + 1) := by ring

theorem beBytes_head {n : Nat} : (beBytes 25 n).head? = some (UInt8.ofNat (n / 256 ^ 24)) := rfl

/-- The version byte of a number of 25 bytes. -/
theorem version_eq {n : Nat} (hn : n < 2 ^ 200) {version : UInt8}
    (h : (beBytes 25 n).head? = some version) : n / 256 ^ 24 = version.toNat := by
  rw [beBytes_head, Option.some.injEq] at h
  rw [← h, UInt8.toNat_ofNat']
  have hlt : n / 256 ^ 24 < 2 ^ 8 := by omega
  exact (Nat.mod_eq_of_lt hlt).symm

theorem leadingZeros_eq_nil {bin text : List UInt8} (h : text.head? ≠ some 49) :
    (bin.zip text).takeWhile (fun pair => pair.1 = 0 && pair.2 = 49) = [] := by
  cases bin with
  | nil => rfl
  | cons byte bin =>
    cases text with
    | nil => rfl
    | cons ch text =>
      rw [List.head?_cons, ne_eq, Option.some.injEq] at h
      simp [h]

/-- What `blkmk_address_to_script` has checked about a text it accepts. -/
theorem blkmkAddressToScript_eq_some {sha256 : List UInt8 → List UInt8}
    {addr script : List UInt8} (h : blkmkAddressToScript sha256 addr = some script) :
    ∃ (n : Nat) (version : UInt8), b58Value 0 addr = some n ∧ n / 256 ^ 24 = version.toNat ∧
      (version = 0 → addr.head? = some 49) ∧
      script =
        (if version = 0 || version = 111 then
          [0x76, 0xa9, 0x14] ++ ((beBytes 25 n).drop 1).take 20 ++ [0x88, 0xac]
        else
          [0xa9, 0x14] ++ ((beBytes 25 n).drop 1).take 20 ++ [0x87]) ∧
      (version = 0 ∨ version = 111 ∨ version = 5 ∨ version = 196) := by
  simp only [blkmkAddressToScript, b58tobin] at h
  cases hvalue : b58Value 0 addr with
  | none =>
    rw [hvalue] at h
    cases h
  | some n =>
    rw [hvalue, Option.map_some] at h
    simp only at h
    cases hcheck : b58check sha256 (beBytes 25 n) addr with
    | none =>
      rw [hcheck] at h
      cases h
    | some version =>
      rw [hcheck] at h
      simp only [b58check] at hcheck
      split at hcheck
      · cases hcheck
      · split at hcheck
        · cases hcheck
        · next hzeros =>
          have hversion := version_eq (b58Value_lt (by decide) hvalue) hcheck
          refine ⟨n, version, rfl, hversion, ?_, ?_⟩
          · rintro rfl
            -- without a leading one the first byte would be the one after the zeros
            by_contra hhead
            apply hzeros
            rw [leadingZeros_eq_nil hhead, List.length_nil]
            simp [List.getD_eq_getElem?_getD, ← List.head?_eq_getElem?, hcheck]
          · simp only at h
            split at h
            · next hkey =>
              cases h
              rw [if_pos hkey]
              refine ⟨rfl, ?_⟩
              simp only [Bool.or_eq_true, decide_eq_true_eq] at hkey
              tauto
            · next hkey =>
              split at h
              · next hscript =>
                cases h
                rw [if_neg hkey]
                refine ⟨rfl, ?_⟩
                simp only [Bool.or_eq_true, decide_eq_true_eq] at hscript
                tauto
              · cases h

end ChirpGateway
