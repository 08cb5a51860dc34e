import ChirpGateway.Address.OutputScript
import ChirpGateway.Chirp.Engine

/-!
# The bytes of a payout

`chirp_output_bytes` guesses the script from the spelling of the address. For an
address that decodes the guess is never too small.
-/

namespace ChirpGateway

open Bytes

theorem length_convertBits_le (values : List Nat) (val bits : Nat) :
    8 * (convertBits values val bits).1.length ≤ 5 * values.length + bits := by
  induction values generalizing val bits with
  | nil =>
    simp only [convertBits, List.length_nil]
    omega
  | cons v values ih =>
    simp only [convertBits]
    split
    · next hfull =>
      have hrest := ih (((val <<< 5) ||| v) % 2 ^ 32) (bits + 5 - 8)
      rw [List.length_cons, List.length_cons]
      omega
    · have hrest := ih (((val <<< 5) ||| v) % 2 ^ 32) (bits + 5)
      rw [List.length_cons]
      omega

/-- Prefix, separator, version and checksum take ten characters. -/
theorem length_segwitProgram_le {hrp addr prog : List UInt8} {witver : Nat}
    (hhrp : 2 ≤ hrp.length) (h : segwitAddrDecode hrp addr = some (witver, prog)) :
    8 * prog.length ≤ 5 * (addr.length - 10) := by
  obtain ⟨values, ⟨front, body, all, rfl, -, hfront, hall, hdata, -⟩, rfl, -⟩ :=
    segwitAddrDecode_eq_some h
  have hbody := length_of_mapM_eq_some hall
  have hlen := congrArg List.length hdata
  have hbytes := length_convertBits_le values 0 0
  rw [hfront, List.length_map] at hhrp
  rw [List.length_cons, List.length_take] at hlen
  rw [List.length_append, List.length_cons]
  omega

/-- A number that starts with the digit for `3` has no key hash version. -/
theorem ne_testnetKey_of_digit {len n : Nat} (hlow : 2 * 58 ^ len ≤ n)
    (hhigh : n < 3 * 58 ^ len) : n / 256 ^ 24 ≠ 111 := by
  rcases Nat.lt_or_ge len 34 with hlt | hge
  · have hpow : 58 ^ len ≤ 58 ^ 33 := Nat.pow_le_pow_right (by decide) (by omega)
    omega
  · have hpow : 58 ^ 34 ≤ 58 ^ len := Nat.pow_le_pow_right (by decide) hge
    omega

/-- An address that starts with `3` and decodes names a script hash. -/
theorem isScriptHash_of_three {rest : List UInt8} {n : Nat} {version : UInt8}
    (hvalue : b58Value 0 (51 :: rest) = some n) (hversion : n / 256 ^ 24 = version.toNat)
    (hzero : version = 0 → (51 :: rest).head? = some 49) : version ≠ 0 ∧ version ≠ 111 := by
  constructor
  · intro hv
    exact absurd (hzero hv) (by simp)
  · rintro rfl
    obtain ⟨digit, hdigit, -, hrest⟩ := b58Value_cons hvalue
    have htwo : b58DigitsMap 51 = some 2 := by decide
    rw [htwo, Option.some.injEq] at hdigit
    rw [← hdigit, Nat.zero_mul, Nat.zero_add] at hrest
    obtain ⟨hlow, hhigh⟩ := b58Value_bounds hrest
    exact ne_testnetKey_of_digit hlow hhigh hversion

section Address

variable {sha256 : List UInt8 → List UInt8} {addr script : List UInt8}

theorem length_of_segwit {hrp prog : List UInt8} {witver : Nat} (hhrp : 2 ≤ hrp.length)
    (hstart : ((ascii "bc").isPrefixOf addr || (ascii "tb").isPrefixOf addr) = true)
    (hdecode : segwitAddrDecode hrp addr = some (witver, prog))
    (hsize : prog.length = 20 ∨ prog.length = 32) :
    prog.length + 11 ≤ chirpOutputBytes addr := by
  have hlen := length_segwitProgram_le hhrp hdecode
  have hdigit : (ascii "1").isPrefixOf addr = false ∧ (ascii "3").isPrefixOf addr = false := by
    rw [Bool.or_eq_true, List.isPrefixOf_iff_prefix, List.isPrefixOf_iff_prefix] at hstart
    rcases hstart with ⟨rest, rfl⟩ | ⟨rest, rfl⟩ <;> exact ⟨rfl, rfl⟩
  simp only [chirpOutputBytes, hdigit, Bool.false_eq_true, if_false]
  split
  · split <;> omega
  · split <;> omega

theorem length_of_base58 (hstart : ¬ ((ascii "bc").isPrefixOf addr = true))
    (h : blkmkAddressToScript sha256 addr = some script) :
    23 ≤ script.length ∧ script.length ≤ 25 ∧
      script.length + 9 ≤ chirpOutputBytes addr := by
  obtain ⟨n, version, hvalue, hversion, hzero, hscript, -⟩ := blkmkAddressToScript_eq_some h
  have hkey : ∀ front, (ascii "bc1" ++ front).isPrefixOf addr = false := by
    intro front
    rw [Bool.eq_false_iff]
    intro hfront
    rw [List.isPrefixOf_iff_prefix] at hfront hstart
    exact hstart ((List.prefix_append (ascii "bc") (ascii "1" ++ front)).trans hfront)
  have hlen : script.length = if version = 0 || version = 111 then 25 else 23 := by
    rw [hscript]
    split <;> rfl
  have hq : (ascii "bc1q").isPrefixOf addr = false := hkey (ascii "q")
  have hp : (ascii "bc1p").isPrefixOf addr = false := hkey (ascii "p")
  simp only [chirpOutputBytes, hq, hp, Bool.and_false, Bool.false_eq_true, if_false, hlen]
  split
  · next hpub =>
    by_cases hthree : (ascii "3").isPrefixOf addr = true
    · rw [List.isPrefixOf_iff_prefix] at hthree
      obtain ⟨rest, rfl⟩ := hthree
      obtain ⟨hne, hne'⟩ := isScriptHash_of_three hvalue hversion hzero
      simp [hne, hne'] at hpub
    · rw [if_neg hthree]
      split <;> omega
  · split
    · omega
    · split <;> omega

/-- The estimate covers the output of every address that decodes. -/
theorem outputBytes_of_addr2OutputScript (h : addr2OutputScript sha256 addr = some script) :
    22 ≤ script.length ∧ script.length ≤ 34 ∧
      script.length + 9 ≤ chirpOutputBytes addr := by
  simp only [addr2OutputScript] at h
  split at h
  · cases h
  · split at h
    · next hstart =>
      split at h
      · cases h
      · next witver prog hdecode =>
        split at h
        · next hsize =>
          have hprog : prog.length = 20 ∨ prog.length = 32 := by
            simp only [Bool.or_eq_true, Bool.and_eq_true, decide_eq_true_eq] at hsize
            tauto
          have hhrp := segwitHrp_cases addr
          have hbytes := length_of_segwit ?_ hstart hdecode hprog
          · cases h
            rw [List.length_cons, List.length_cons]
            omega
          · rcases hhrp with heq | heq | heq <;> rw [heq] <;> decide
        · cases h
    · next hstart =>
      rw [Bool.or_eq_true, not_or] at hstart
      have hbytes := length_of_base58 hstart.1 h
      omega

end Address

end ChirpGateway
