import ChirpGateway.Lib.LongDivision
import ChirpGateway.Stratum.Vardiff
import ChirpGateway.Template.Target

/-!
# The targets of difficulties

What `get_target_from_diff` and `datum_blake2b_share_target` come to as numbers, and that a
share which meets a target meets that of every lower difficulty.
-/

namespace ChirpGateway

open Bytes LongDivision Wire

/-! ## The quotient -/

/-- The turns of the division for some words, behind those of a number. -/
theorem foldl_divideWord {diff : UInt64} (hdiff : 0 < diff.toNat) {parts : List Nat}
    (hparts : ∀ part ∈ parts, part < 2 ^ 64) (value size : Nat) :
    parts.foldl (divideWord diff) (value % diff.toNat, leBytes size (value / diff.toNat)) =
      (parts.foldl (fun value part => value * 2 ^ 64 + part) value % diff.toNat,
        leBytes (8 * parts.length + size)
          (parts.foldl (fun value part => value * 2 ^ 64 + part) value / diff.toNat)) := by
  induction parts generalizing value size with
  | nil => simp
  | cons part parts ih =>
    rw [List.forall_mem_cons] at hparts
    obtain ⟨hpart, hparts⟩ := hparts
    have hdigit := digit_lt value part hdiff hpart
    have hturn : divideWord diff (value % diff.toNat, leBytes size (value / diff.toNat)) part =
        ((value * 2 ^ 64 + part) % diff.toNat,
          leBytes (8 + size) ((value * 2 ^ 64 + part) / diff.toNat)) := by
      rw [mod_digit, div_digit value part hdiff]
      exact congrArg (Prod.mk _) (leBytes_append hdigit size (value / diff.toNat))
    rw [List.foldl_cons, List.foldl_cons, hturn, ih hparts, List.length_cons]
    congr 2
    omega

theorem bytes_getTargetFromDiff {diff : UInt64} (hdiff : 1 ≤ diff) :
    (getTargetFromDiff diff).bytes = leBytes 32 (0xffff0000 * 2 ^ 192 / diff.toNat) := by
  have hpos : 0 < diff.toNat := UInt64.le_iff_toNat_le.mp hdiff
  have hturns := foldl_divideWord hpos
    (show ∀ part ∈ dividendParts, part < 2 ^ 64 by decide) 0 0
  rw [Nat.zero_mod, Nat.zero_div] at hturns
  exact congrArg Prod.snd hturns

/-! ## The shift -/

theorem leValue_u256Shr (n : List UInt8) (bits : Nat) :
    leValue (u256Shr n bits) = leValue n / 2 ^ bits := by
  have hshifted : leValue (n.drop (bits / 8) ++ List.replicate (bits / 8) 0) =
      leValue n / 256 ^ (bits / 8) := by
    rw [leValue_append, leValue_replicate_zero, Nat.mul_zero, Nat.add_zero, leValue_drop]
  have hpow : 256 ^ (bits / 8) * 2 ^ (bits % 8) = 2 ^ bits := by
    rw [show 256 = 2 ^ 8 from rfl, ← Nat.pow_mul, ← Nat.pow_add, Nat.div_add_mod]
  unfold u256Shr
  dsimp only
  by_cases hbits : bits % 8 = 0
  · rw [hbits, Nat.pow_zero, Nat.mul_one] at hpow
    rw [if_pos hbits, hshifted, hpow]
  · rw [if_neg hbits]
    refine (leValue_moveBits (Nat.pos_of_ne_zero hbits) (Nat.mod_lt _ (by decide)) _).trans ?_
    rw [hshifted, Nat.div_div_eq_div_mul, hpow]

theorem bytes_blake2bShareTarget {bits : Nat} (hbits : bits < 224) :
    ∃ target, blake2bShareTarget bits = some target ∧
      target.bytes = leBytes 32 ((2 ^ 224 - 1) / 2 ^ bits) := by
  refine ⟨_, dif_neg (Nat.not_le.mpr hbits), ?_⟩
  have hones : leValue (List.replicate 28 0xff ++ List.replicate 4 0) = 2 ^ 224 - 1 := by
    decide +kernel
  rw [← hones, ← leValue_u256Shr, leBytes_leValue]
  exact length_u256Shr (by simp) hbits

/-! ## Shares -/

/-- The quotient of a number that fits is itself what the bytes of a target denote. -/
theorem leValue_of_bytes {target : Hash32} {dividend divisor : Nat}
    (hdividend : dividend < 256 ^ 32)
    (h : target.bytes = leBytes 32 (dividend / divisor)) :
    leValue target.bytes = dividend / divisor := by
  rw [h, leValue_leBytes_of_lt (Nat.lt_of_le_of_lt (Nat.div_le_self _ _) hdividend)]

/-- A share that meets a target meets every higher one. -/
theorem compareHashes_le_of_le {shareHash low high : Hash32}
    (h : leValue low.bytes ≤ leValue high.bytes)
    (hmeets : compareHashes shareHash.bytes low.bytes ≤ 0) :
    compareHashes shareHash.bytes high.bytes ≤ 0 := by
  have hlength : low.bytes.length = high.bytes.length := by rw [low.length_eq, high.length_eq]
  have hshare : shareHash.bytes.length = low.bytes.length := by
    rw [shareHash.length_eq, low.length_eq]
  exact compareHashes_trans hshare hlength hmeets ((compareHashes_le_iff hlength).mpr h)

/-- The targets are exact, and lower for a higher difficulty, so that a share which meets the
    target of a difficulty meets that of every lower one. -/
theorem shareTargets_exact :
    (∀ diff : UInt64, 1 ≤ diff →
      (getTargetFromDiff diff).bytes = leBytes 32 (0xffff0000 * 2 ^ 192 / diff.toNat)) ∧
    (∀ bits < 224, ∃ target, blake2bShareTarget bits = some target ∧
      target.bytes = leBytes 32 ((2 ^ 224 - 1) / 2 ^ bits)) ∧
    (∀ diff higher : UInt64, 1 ≤ diff → diff ≤ higher →
      leValue (getTargetFromDiff higher).bytes ≤ leValue (getTargetFromDiff diff).bytes ∧
      ∀ shareHash : Hash32,
        compareHashes shareHash.bytes (getTargetFromDiff higher).bytes ≤ 0 →
          compareHashes shareHash.bytes (getTargetFromDiff diff).bytes ≤ 0) ∧
    ∀ bits higher, bits ≤ higher → ∀ target ∈ blake2bShareTarget bits,
      ∀ lower ∈ blake2bShareTarget higher,
        leValue lower.bytes ≤ leValue target.bytes ∧
        ∀ shareHash : Hash32, compareHashes shareHash.bytes lower.bytes ≤ 0 →
          compareHashes shareHash.bytes target.bytes ≤ 0 := by
  refine ⟨fun _ => bytes_getTargetFromDiff, fun _ => bytes_blake2bShareTarget, ?_, ?_⟩
  · intro diff higher hdiff hle
    have hpos : 0 < diff.toNat := UInt64.le_iff_toNat_le.mp hdiff
    have hvalues : leValue (getTargetFromDiff higher).bytes ≤
        leValue (getTargetFromDiff diff).bytes := by
      rw [leValue_of_bytes (by decide) (bytes_getTargetFromDiff hdiff),
        leValue_of_bytes (by decide) (bytes_getTargetFromDiff (UInt64.le_trans hdiff hle))]
      exact Nat.div_le_div_left (UInt64.le_iff_toNat_le.mp hle) hpos
    exact ⟨hvalues, fun shareHash => compareHashes_le_of_le hvalues⟩
  · intro bits higher hle target htarget lower hlower
    have hhigher : higher < 224 := by
      by_contra hlong
      rw [blake2bShareTarget, dif_pos (Nat.le_of_not_lt hlong)] at hlower
      cases hlower
    obtain ⟨_, hsome, hbytes⟩ := bytes_blake2bShareTarget (Nat.lt_of_le_of_lt hle hhigher)
    obtain ⟨_, hsomeLower, hbytesLower⟩ := bytes_blake2bShareTarget hhigher
    rw [hsome] at htarget
    rw [hsomeLower] at hlower
    cases htarget
    cases hlower
    have hvalues : leValue lower.bytes ≤ leValue target.bytes := by
      rw [leValue_of_bytes (by decide) hbytes, leValue_of_bytes (by decide) hbytesLower]
      exact Nat.div_le_div_left (Nat.pow_le_pow_right (by decide) hle) (Nat.two_pow_pos bits)
    exact ⟨hvalues, fun shareHash => compareHashes_le_of_le hvalues⟩

end ChirpGateway
