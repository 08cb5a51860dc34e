import ChirpGateway.Lib.Writes
import ChirpGateway.Pow.Header
import ChirpGateway.Template.Truncation
import Mathlib.Data.List.Induction

/-!
# The target of a block

`nbits_to_target` (`datum_utils.c:253-269`) spreads the bits of a template over 32 bytes,
and `compare_hashes` looks at a hash and a target from their last bytes on
(`datum_utils.c:271-277`). What the bits stand for is the compact form: a byte for the
size, a bit for the sign and 23 bits for the value.
-/

namespace ChirpGateway

open Bytes Wire Writes

/-! ## Comparing -/

theorem compareHashes_concat {shareHash target : List UInt8}
    (hlen : shareHash.length = target.length) (share limit : UInt8) :
    compareHashes (shareHash ++ [share]) (target ++ [limit]) =
      if share < limit then -1
      else if share = limit then compareHashes shareHash target else 1 := by
  unfold compareHashes
  rw [List.zip_append hlen, List.zip_cons_cons, List.zip_nil_left, List.reverse_append,
    List.reverse_singleton, List.singleton_append, List.find?_cons]
  by_cases heq : share = limit
  · subst heq
    simp
  · simp [heq]

/-- A hash is not above a target exactly where its number is not. -/
theorem compareHashes_le_iff {shareHash target : List UInt8}
    (hlen : shareHash.length = target.length) :
    compareHashes shareHash target ≤ 0 ↔ leValue shareHash ≤ leValue target := by
  induction shareHash using List.reverseRecOn generalizing target with
  | nil =>
    obtain rfl := List.length_eq_zero_iff.mp hlen.symm
    exact iff_of_true (Int.le_refl 0) (Nat.le_refl _)
  | append_singleton shareHash share ih =>
    rcases List.eq_nil_or_concat' target with rfl | ⟨front, limit, rfl⟩
    · simp at hlen
    have hfront : shareHash.length = front.length := by simpa using hlen
    have hlow := leValue_lt shareHash
    have hlimit := leValue_lt front
    have hbyte : ∀ byte : UInt8, leValue [byte] = byte.toNat := fun byte => by simp [leValue]
    rw [compareHashes_concat hfront, leValue_append, leValue_append, hbyte, hbyte, hfront]
    rw [hfront] at hlow
    by_cases hless : share < limit
    · have hnat : share.toNat + 1 ≤ limit.toNat := UInt8.lt_iff_toNat_lt.mp hless
      have hmul := Nat.mul_le_mul_left (256 ^ front.length) hnat
      rw [Nat.mul_add, Nat.mul_one] at hmul
      rw [if_pos hless]
      exact iff_of_true (by decide) (by omega)
    · rw [if_neg hless]
      by_cases heq : share = limit
      · rw [if_pos heq, heq, ih hfront]
        omega
      · have hnat : limit.toNat + 1 ≤ share.toNat := by
          have hle := UInt8.lt_iff_toNat_lt.not.mp hless
          have hne : share.toNat ≠ limit.toNat := fun h => heq (UInt8.toNat_inj.mp h)
          omega
        have hmul := Nat.mul_le_mul_left (256 ^ front.length) hnat
        rw [Nat.mul_add, Nat.mul_one] at hmul
        rw [if_neg heq]
        exact iff_of_false (by decide) (by omega)

/-- What is within a target is within every higher one. -/
theorem compareHashes_trans {shareHash low high : List UInt8}
    (hlow : shareHash.length = low.length) (hhigh : low.length = high.length)
    (hmeets : compareHashes shareHash low ≤ 0) (hle : compareHashes low high ≤ 0) :
    compareHashes shareHash high ≤ 0 := by
  rw [compareHashes_le_iff hlow] at hmeets
  rw [compareHashes_le_iff hhigh] at hle
  rw [compareHashes_le_iff (hlow.trans hhigh)]
  exact hmeets.trans hle

/-! ## Spreading the bits -/

/-- The last byte of the bits. -/
def nbitsExponent (nbits : UInt32) : Nat := nbits.toNat / 2 ^ 24

/-- The other three bytes, less those that fall off at the end of a short target. -/
def nbitsMantissa (nbits : UInt32) : Nat :=
  nbits.toNat % 2 ^ 24 / 256 ^ (3 - nbitsExponent nbits)

/-- The place of the first of the three bytes. -/
def nbitsPlace (nbits : UInt32) : Nat := nbitsExponent nbits - 3

/-- What `nbits_to_target` writes to a target. -/
def nbitsToTarget (nbits : UInt32) : List (Write UInt8) :=
  ⟨0, List.replicate 32 0⟩ :: (List.range 3).map fun i =>
    ⟨i + nbitsPlace nbits, [UInt8.ofNat (nbitsMantissa nbits / 256 ^ i)]⟩

/-- The 32 bytes of a target. -/
def targetBytes (mem : Nat → UInt8) : List UInt8 := (List.range 32).map mem

/-- The target that the bits leave in some memory. -/
def targetOf (mem : Nat → UInt8) (nbits : UInt32) : List UInt8 :=
  targetBytes (storeAll mem (nbitsToTarget nbits))

theorem storeAll_nbitsToTarget (mem : Nat → UInt8) (nbits : UInt32) (k : Nat) :
    storeAll mem (nbitsToTarget nbits) k =
      if k = 2 + nbitsPlace nbits then UInt8.ofNat (nbitsMantissa nbits / 256 ^ 2)
      else if k = 1 + nbitsPlace nbits then UInt8.ofNat (nbitsMantissa nbits / 256)
      else if k = nbitsPlace nbits then UInt8.ofNat (nbitsMantissa nbits)
      else if k < 32 then 0 else mem k := by
  rw [nbitsToTarget, storeAll, List.foldl_cons]
  simp only [← store_replicate]
  simp [List.range_succ]

/-- The three bytes stand between zeros, as long as they end within the target. -/
theorem targetOf_eq {nbits : UInt32} (mem : Nat → UInt8) (h : nbitsExponent nbits ≤ 32) :
    targetOf mem nbits = List.replicate (nbitsPlace nbits) 0 ++
      (leBytes 3 (nbitsMantissa nbits) ++ List.replicate (29 - nbitsPlace nbits) 0) := by
  have hplace : nbitsPlace nbits ≤ 29 := by
    unfold nbitsPlace
    omega
  apply List.ext_getElem
  · simp [targetOf, targetBytes]
    omega
  · intro k hk _
    have hk : k < 32 := by simpa [targetOf, targetBytes] using hk
    have hbytes : leBytes 3 (nbitsMantissa nbits) = [UInt8.ofNat (nbitsMantissa nbits),
        UInt8.ofNat (nbitsMantissa nbits / 256), UInt8.ofNat (nbitsMantissa nbits / 256 ^ 2)] := by
      simp [leBytes, Nat.div_div_eq_div_mul]
    simp only [targetOf, targetBytes, List.getElem_map, List.getElem_range,
      storeAll_nbitsToTarget, hbytes]
    rcases Nat.lt_or_ge k (nbitsPlace nbits) with hfront | hfront
    · rw [List.getElem_append_left (by simpa using hfront), List.getElem_replicate,
        if_neg (by omega), if_neg (by omega), if_neg (by omega), if_pos hk]
    · obtain ⟨j, rfl⟩ := Nat.exists_eq_add_of_le hfront
      rw [List.getElem_append_right (by simp)]
      rcases j with _ | _ | _ | j
      · simp
      · simp [Nat.add_comm]
      · simp [Nat.add_comm]
      · simp only [List.length_replicate, Nat.add_sub_cancel_left, List.cons_append,
          List.getElem_cons_succ, List.nil_append, List.getElem_replicate]
        rw [if_neg (by omega), if_neg (by omega), if_neg (by omega), if_pos hk]

/-- The number in a target. -/
theorem leValue_targetOf {nbits : UInt32} (mem : Nat → UInt8) (h : nbitsExponent nbits ≤ 32) :
    leValue (targetOf mem nbits) = 256 ^ nbitsPlace nbits * nbitsMantissa nbits := by
  have hmantissa : nbitsMantissa nbits < 256 ^ 3 :=
    Nat.lt_of_le_of_lt (Nat.div_le_self _ _) (Nat.mod_lt _ (by decide))
  rw [targetOf_eq mem h, leValue_append, leValue_append, leValue_replicate_zero,
    leValue_replicate_zero, leValue_leBytes_of_lt hmantissa, List.length_replicate, Nat.mul_zero,
    Nat.add_zero, Nat.zero_add]

theorem length_targetOf (mem : Nat → UInt8) (nbits : UInt32) :
    (targetOf mem nbits).length = 32 := by
  simp [targetOf, targetBytes]

/-! ## The compact form -/

/-- The 23 bits of the value. -/
def compactWord (nbits : UInt32) : Nat := nbits.toNat % 2 ^ 23

/-- The sign is set. -/
def compactSign (nbits : UInt32) : Prop := nbits.toNat / 2 ^ 23 % 2 = 1

/-- The value without its sign. -/
def compactMagnitude (nbits : UInt32) : Nat :=
  if nbitsExponent nbits ≤ 3 then compactWord nbits / 256 ^ (3 - nbitsExponent nbits)
  else compactWord nbits * 256 ^ (nbitsExponent nbits - 3)

/-- The bits of a target that is not negative and no greater than any hash. -/
structure IsCompact (nbits : UInt32) : Prop where
  nonneg : compactSign nbits → compactMagnitude nbits = 0
  fits : compactMagnitude nbits < 256 ^ 32

/-- The bits are turned into the target they stand for, and nothing else is written. -/
structure TargetSound (nbits : UInt32) : Prop where
  inside : ∀ w ∈ nbitsToTarget nbits, w.Within 0 32
  exact : IsCompact nbits → ∀ mem : Nat → UInt8, ∀ shareHash : Hash32,
    compareHashes shareHash.bytes (targetOf mem nbits) ≤ 0 ↔
      leValue shareHash.bytes ≤ compactMagnitude nbits

/-- A sign in front of a value of zero. -/
def NegativeZero (nbits : UInt32) : Prop :=
  compactSign nbits ∧ compactMagnitude nbits = 0 ∧ nbitsExponent nbits ≠ 0

theorem inside_iff (nbits : UInt32) :
    (∀ w ∈ nbitsToTarget nbits, w.Within 0 32) ↔ nbitsExponent nbits ≤ 32 := by
  simp [nbitsToTarget, Write.Within, Write.stop, List.range_succ, nbitsPlace]
  omega

/-- Without a sign, the three bytes are the value. -/
theorem targetValue_eq {nbits : UInt32} (h : ¬ compactSign nbits) :
    256 ^ nbitsPlace nbits * nbitsMantissa nbits = compactMagnitude nbits := by
  have hword : nbits.toNat % 2 ^ 24 = compactWord nbits := by
    unfold compactSign compactWord at *
    omega
  unfold compactMagnitude nbitsMantissa nbitsPlace
  rw [hword]
  by_cases hshort : nbitsExponent nbits ≤ 3
  · rw [if_pos hshort, Nat.sub_eq_zero_of_le hshort, Nat.pow_zero, Nat.one_mul]
  · rw [if_neg hshort, Nat.sub_eq_zero_of_le (Nat.le_of_not_le hshort), Nat.pow_zero, Nat.div_one,
      Nat.mul_comm]

/-- A sign counts as the highest bit of the three bytes. -/
theorem targetValue_pos {nbits : UInt32} (hsign : compactSign nbits)
    (hexponent : nbitsExponent nbits ≠ 0) : 0 < 256 ^ nbitsPlace nbits * nbitsMantissa nbits := by
  have hhigh : 2 ^ 23 ≤ nbits.toNat % 2 ^ 24 := by
    unfold compactSign at hsign
    omega
  have hshift : 256 ^ (3 - nbitsExponent nbits) ≤ 256 ^ 2 :=
    Nat.pow_le_pow_right (by decide) (by omega)
  exact Nat.mul_pos (Nat.pow_pos (by decide)) (Nat.div_pos (by omega) (Nat.pow_pos (by decide)))

/-- Bits of size zero leave nothing. -/
theorem nbitsMantissa_eq_zero {nbits : UInt32} (hexponent : nbitsExponent nbits = 0) :
    nbitsMantissa nbits = 0 := by
  unfold nbitsMantissa
  rw [hexponent]
  omega

/-- The bits of a target are decoded exactly, and in range, for a size up to that of a hash,
    unless they have a sign in front of a zero. -/
theorem targetSound_iff (texts : GbtTexts) :
    TargetSound texts.bitsUint ↔
      nbitsExponent texts.bitsUint ≤ 32 ∧ ¬ NegativeZero texts.bitsUint := by
  generalize texts.bitsUint = nbits
  constructor
  · intro h
    have hexponent := (inside_iff nbits).mp h.inside
    refine ⟨hexponent, fun ⟨hsign, hzero, hsize⟩ => ?_⟩
    have hcompact : IsCompact nbits := ⟨fun _ => hzero, by rw [hzero]; decide⟩
    -- The target itself is a hash that counts as a block.
    have hself := (h.exact hcompact (fun _ => 0)
      ⟨targetOf (fun _ => 0) nbits, length_targetOf _ nbits⟩).mp
      ((compareHashes_le_iff rfl).mpr (Nat.le_refl _))
    rw [leValue_targetOf _ hexponent, hzero] at hself
    exact absurd (targetValue_pos hsign hsize) (Nat.not_lt.mpr hself)
  · rintro ⟨hexponent, hsignless⟩
    refine ⟨(inside_iff nbits).mpr hexponent, fun hcompact mem shareHash => ?_⟩
    have hvalue : 256 ^ nbitsPlace nbits * nbitsMantissa nbits = compactMagnitude nbits := by
      by_cases hsign : compactSign nbits
      · have hzero := hcompact.nonneg hsign
        have hsize : nbitsExponent nbits = 0 := by
          by_contra hsize
          exact hsignless ⟨hsign, hzero, hsize⟩
        rw [hzero, nbitsMantissa_eq_zero hsize, Nat.mul_zero]
      · exact targetValue_eq hsign
    rw [compareHashes_le_iff (by rw [shareHash.length_eq, length_targetOf]),
      leValue_targetOf mem hexponent, hvalue]

/-- Bits of a size one too great. -/
def wideBitsReply : Json :=
  (oneSatReply 1).objectSet "bits" (.string (ascii "21000001"))

/-- They are accepted, and the third byte is written behind the target. -/
theorem wideBitsReply_not_sound : ∃ tdata texts,
    gbtParser blake2bParser wideBitsReply = some tdata ∧ gbtTexts wideBitsReply = some texts ∧
      ¬ TargetSound texts.bitsUint := by
  obtain ⟨tdata, htdata⟩ := Option.isSome_iff_exists.mp
    (show (gbtParser blake2bParser wideBitsReply).isSome = true by decide +kernel)
  obtain ⟨texts, htexts, hbits⟩ := Option.map_eq_some_iff.mp
    (show (gbtTexts wideBitsReply).map GbtTexts.bitsUint = some 0x21000001 by decide +kernel)
  refine ⟨tdata, texts, htdata, htexts, fun h => ?_⟩
  have hexponent := (inside_iff texts.bitsUint).mp h.inside
  rw [hbits] at hexponent
  exact absurd hexponent (by decide)

end ChirpGateway
