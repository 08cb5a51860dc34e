import ChirpGateway.Lib.Tables
import ChirpGateway.Stratum.Messages

/-!
# Difficulties of a miner

The targets of a difficulty (`datum_utils.c:74-117`, `datum_pow.c:75-96`) and the
changes of difficulty that `stratum_update_vardiff` makes (`datum_stratum.c:817-915`).
-/

namespace ChirpGateway

open Bytes Wire

/-! ## Powers of two -/

def IsPowerOfTwo (d : UInt64) : Prop := ∃ k, d.toNat = 2 ^ k

/-- `roundDownToPowerOfTwo_64`, which is undefined for zero. -/
def roundDownToPowerOfTwo (x : UInt64) : UInt64 := 1 <<< UInt64.ofNat (Nat.log2 x.toNat)

theorem IsPowerOfTwo.pos {d : UInt64} (h : IsPowerOfTwo d) : 0 < d.toNat := by
  obtain ⟨k, hk⟩ := h
  rw [hk]
  exact Nat.two_pow_pos k

theorem isPowerOfTwo_roundDown (x : UInt64) : IsPowerOfTwo (roundDownToPowerOfTwo x) := by
  have hlog : Nat.log2 x.toNat < 64 := by
    by_cases hzero : x.toNat = 0
    · rw [hzero]
      decide
    · exact (Nat.log2_lt hzero).mpr x.toNat_lt
  refine ⟨Nat.log2 x.toNat, ?_⟩
  have hpow : 2 ^ Nat.log2 x.toNat < 2 ^ 64 := Nat.pow_lt_pow_right (by decide) hlog
  have hshift : (UInt64.ofNat (Nat.log2 x.toNat)).toNat = Nat.log2 x.toNat :=
    UInt64.toNat_ofNat_of_lt' (Nat.lt_trans hlog (by decide))
  rw [roundDownToPowerOfTwo, UInt64.toNat_shiftLeft, hshift, Nat.mod_eq_of_lt hlog,
    Nat.shiftLeft_eq, Nat.mod_eq_of_lt (by simpa using hpow)]
  simp

theorem toNat_shiftLeft_of_lt {d : UInt64} {k : Nat} (hk : k < 64) (h : d.toNat * 2 ^ k < 2 ^ 64) :
    (d <<< UInt64.ofNat k).toNat = d.toNat * 2 ^ k := by
  have hshift : (UInt64.ofNat k).toNat = k :=
    UInt64.toNat_ofNat_of_lt' (Nat.lt_trans hk (by decide))
  rw [UInt64.toNat_shiftLeft, hshift, Nat.mod_eq_of_lt hk, Nat.shiftLeft_eq, Nat.mod_eq_of_lt h]

theorem toNat_roundDownToPowerOfTwo {x : UInt64} (hx : x.toNat ≠ 0) :
    (roundDownToPowerOfTwo x).toNat = 2 ^ Nat.log2 x.toNat := by
  have hlog : Nat.log2 x.toNat < 64 := (Nat.log2_lt hx).mpr x.toNat_lt
  have hpow : 2 ^ Nat.log2 x.toNat < 2 ^ 64 := Nat.pow_lt_pow_right (by decide) hlog
  rw [roundDownToPowerOfTwo, toNat_shiftLeft_of_lt hlog (by simpa using hpow)]
  simp

theorem IsPowerOfTwo.shiftLeft {d : UInt64} (hd : IsPowerOfTwo d) {k : Nat} (hk : k < 64)
    (h : d.toNat * 2 ^ k < 2 ^ 64) : IsPowerOfTwo (d <<< UInt64.ofNat k) := by
  obtain ⟨j, hj⟩ := hd
  refine ⟨j + k, ?_⟩
  rw [toNat_shiftLeft_of_lt hk h, hj, Nat.pow_add]

/-- Half of it is one again, or nothing is left. -/
theorem IsPowerOfTwo.half {d : UInt64} (hd : IsPowerOfTwo d) :
    IsPowerOfTwo (d >>> 1) ∨ d >>> 1 = 0 := by
  obtain ⟨k, hk⟩ := hd
  have hhalf : (d >>> 1).toNat = 2 ^ k / 2 := by
    rw [UInt64.toNat_shiftRight, hk]
    rfl
  cases k with
  | zero =>
    right
    apply UInt64.toNat_inj.mp
    rw [hhalf]
    rfl
  | succ k =>
    left
    refine ⟨k, ?_⟩
    rw [hhalf, Nat.pow_succ, Nat.mul_div_cancel _ (by decide)]

/-! ## Targets -/

/-- The four words of the dividend of `get_target_from_diff`, from the highest. -/
def dividendParts : List Nat := [0x00000000ffff0000, 0, 0, 0]

/-- One turn of the long division: the remainder, and the words of the quotient
    behind it. -/
def divideWord (diff : UInt64) (state : Nat × List UInt8) (part : Nat) : Nat × List UInt8 :=
  let temp := state.1 * 2 ^ 64 + part
  (temp % diff.toNat, leBytes 8 (temp / diff.toNat) ++ state.2)

/-- `get_target_from_diff`. -/
def getTargetFromDiff (diff : UInt64) : Hash32 where
  bytes := (dividendParts.foldl (divideWord diff) (0, [])).2
  length_eq := by simp [dividendParts, divideWord]

/-- `datum_u256_shr`, for a number that is not shifted out whole. -/
def u256Shr (n : List UInt8) (bits : Nat) : List UInt8 :=
  let shifted := n.drop (bits / 8) ++ List.replicate (bits / 8) 0
  if bits % 8 = 0 then shifted
  else
    List.zipWith (fun low high =>
      (low >>> UInt8.ofNat (bits % 8)) ||| (high <<< UInt8.ofNat (8 - bits % 8)))
      shifted (shifted.tail ++ [0])

theorem length_u256Shr {n : List UInt8} {bits : Nat} (hn : n.length = 32) (hbits : bits < 224) :
    (u256Shr n bits).length = 32 := by
  have hshifted : (n.drop (bits / 8) ++ List.replicate (bits / 8) 0).length = 32 := by
    simp only [List.length_append, List.length_drop, List.length_replicate]
    omega
  unfold u256Shr
  dsimp only
  split
  · exact hshifted
  · generalize n.drop (bits / 8) ++ List.replicate (bits / 8) 0 = shifted at hshifted
    rw [List.length_zipWith, List.length_append, List.length_tail, hshifted]
    rfl

/-- `datum_blake2b_share_target`. -/
def blake2bShareTarget (bits : Nat) : Option Hash32 :=
  if h : bits ≥ 224 then none
  else some {
    bytes := u256Shr (List.replicate 28 0xff ++ List.replicate 4 0) bits
    length_eq := length_u256Shr (by simp) (Nat.lt_of_not_le h) }

/-- The target of a difficulty, by the kind of the job. -/
def shareTarget (isBlake2b : Bool) (diff : UInt64) : Hash32 :=
  if isBlake2b then (blake2bShareTarget (floorPoT diff).toNat).getD (getTargetFromDiff diff)
  else getTargetFromDiff diff

/-- The place a notify stores its target at: that of the job, or the one for quick
    changes. -/
def noteKey (slot : Fin 256) (quickdiff : Bool) : Option (Fin 256) :=
  if quickdiff then none else some slot

/-! ## Changes of difficulty -/

/-- The settings, as `datum_conf.c:603-627` admits them. -/
structure VardiffConfig where
  vardiffMin : UInt64
  vardiffTargetSharesMin : UInt64
  vardiffQuickdiffCount : UInt64
  vardiffQuickdiffDelta : UInt64
  min_powerOfTwo : IsPowerOfTwo vardiffMin
  targetShares_pos : 1 ≤ vardiffTargetSharesMin
  quickdiffCount_ge : 4 ≤ vardiffQuickdiffCount
  quickdiffDelta_ge : 3 ≤ vardiffQuickdiffDelta

/-- The fields of `T_DATUM_MINER_DATA` that difficulties are kept in. -/
structure MinerDiffs where
  subscribed : Bool
  currentDiff : UInt64
  lastSentDiff : UInt64
  stratumJobDiffs : Fin 256 → UInt64
  stratumJobTargets : Fin 256 → Hash32
  coinbaseSelection : Fin 6
  shareCountSinceSnap : UInt64
  shareDiffSinceSnap : UInt64
  shareSnapTsms : UInt64
  quickdiffActive : Bool
  quickdiffValue : UInt64
  quickdiffTarget : Hash32
  forcedHighMinDiff : UInt64

/-- `reset_vardiff_stats`. -/
def MinerDiffs.resetVardiffStats (m : MinerDiffs) (loopTsms : UInt64) : MinerDiffs :=
  { m with shareCountSinceSnap := 0, shareDiffSinceSnap := 0, shareSnapTsms := loopTsms }

/-- What `stratum_update_vardiff` does. -/
inductive VardiffMove where
  | keep
  | lower
  | raise
  /-- by about this factor -/
  | quick (ratio : UInt64)

/-- The difficulty of a quick change. -/
def quickDiff (current ratio : UInt64) : UInt64 :=
  let diff := roundDownToPowerOfTwo (ratio * current)
  if diff < current <<< 2 then current <<< 2 else diff

section Vardiff

variable (cfg : VardiffConfig) (m : MinerDiffs)

/-- The decision of `stratum_update_vardiff`. -/
def vardiffMove (noQuick : Bool) (loopTsms : UInt64) : VardiffMove :=
  if m.currentDiff ≠ m.lastSentDiff then .keep
  else if !noQuick && m.shareCountSinceSnap < cfg.vardiffQuickdiffCount then .keep
  else
    let deltaTsms := loopTsms - m.shareSnapTsms
    if m.shareCountSinceSnap = 0 then if deltaTsms > 60000 then .lower else .keep
    else if deltaTsms < 1000 then .keep
    else
      let perShare := deltaTsms / m.shareCountSinceSnap
      let msPerShare := if perShare = 0 then 1 else perShare
      let targetMsShare := 60000 / cfg.vardiffTargetSharesMin
      if !m.quickdiffActive && !noQuick &&
          msPerShare < targetMsShare / cfg.vardiffQuickdiffDelta then
        .quick (targetMsShare / msPerShare)
      else if msPerShare > targetMsShare * 2 then .lower
      else if m.shareCountSinceSnap < 16 then .keep
      else if msPerShare < targetMsShare / 2 then .raise
      else .keep

/-- A step down, not below either minimum. -/
def loweredDiff : UInt64 :=
  let half := m.currentDiff >>> 1
  let forced := if half < m.forcedHighMinDiff then m.forcedHighMinDiff else half
  if forced < cfg.vardiffMin then cfg.vardiffMin else forced

end Vardiff

/-! ## Difficulties that are admitted -/

/-- What is promised of a difficulty, beside the minimum a miner may have of its own. -/
structure VardiffConfig.Admits (cfg : VardiffConfig) (forcedMin d : UInt64) : Prop where
  powerOfTwo : IsPowerOfTwo d
  min_le : cfg.vardiffMin ≤ d
  forced_le : forcedMin ≤ d

section Admitted

variable {cfg : VardiffConfig} {forcedMin d : UInt64}

theorem VardiffConfig.Admits.of_le {other : UInt64} (h : cfg.Admits forcedMin d)
    (hother : IsPowerOfTwo other) (hle : d ≤ other) : cfg.Admits forcedMin other :=
  ⟨hother, UInt64.le_trans h.min_le hle, UInt64.le_trans h.forced_le hle⟩

theorem VardiffConfig.Admits.ne_zero (h : cfg.Admits forcedMin d) : d ≠ 0 := by
  intro hzero
  have hpos := h.powerOfTwo.pos
  rw [hzero] at hpos
  exact absurd hpos (by decide)

theorem le_shiftLeft {k : Nat} (hk : k < 64) (h : d.toNat * 2 ^ k < 2 ^ 64) :
    d ≤ d <<< UInt64.ofNat k := by
  rw [UInt64.le_iff_toNat_le, toNat_shiftLeft_of_lt hk h]
  exact Nat.le_mul_of_pos_right _ (Nat.two_pow_pos k)

theorem VardiffConfig.Admits.shiftLeft (h : cfg.Admits forcedMin d) {k : Nat} (hk : k < 64)
    (hlt : d.toNat * 2 ^ k < 2 ^ 64) : cfg.Admits forcedMin (d <<< UInt64.ofNat k) :=
  h.of_le (h.powerOfTwo.shiftLeft hk hlt) (le_shiftLeft hk hlt)

/-- A quick change goes up at least four times. -/
theorem VardiffConfig.Admits.quickDiff (h : cfg.Admits forcedMin d)
    (hlt : d.toNat * 2 ^ 2 < 2 ^ 64) (ratio : UInt64) :
    cfg.Admits forcedMin (quickDiff d ratio) := by
  have hfour : cfg.Admits forcedMin (d <<< 2) := h.shiftLeft (by decide) hlt
  unfold ChirpGateway.quickDiff
  dsimp only
  split
  · exact hfour
  · next hle => exact hfour.of_le (isPowerOfTwo_roundDown _) (UInt64.not_lt.mp hle)

/-- A step down stops at the minimum. -/
theorem admits_loweredDiff {m : MinerDiffs} (h : IsPowerOfTwo m.currentDiff)
    (hforced : m.forcedHighMinDiff = 0 ∨ IsPowerOfTwo m.forcedHighMinDiff) :
    cfg.Admits m.forcedHighMinDiff (loweredDiff cfg m) := by
  have hmin := cfg.min_powerOfTwo.pos
  unfold loweredDiff
  dsimp only
  by_cases hlow : m.currentDiff >>> 1 < m.forcedHighMinDiff
  · have hpower : IsPowerOfTwo m.forcedHighMinDiff := by
      refine hforced.resolve_left fun hzero => ?_
      rw [hzero, UInt64.lt_iff_toNat_lt] at hlow
      exact Nat.not_lt_zero _ hlow
    rw [if_pos hlow]
    split
    · next hlt => exact ⟨cfg.min_powerOfTwo, UInt64.le_refl _, UInt64.le_of_lt hlt⟩
    · next hge => exact ⟨hpower, UInt64.not_lt.mp hge, UInt64.le_refl _⟩
  · rw [if_neg hlow]
    split
    · next hlt =>
      exact ⟨cfg.min_powerOfTwo, UInt64.le_refl _,
        UInt64.le_trans (UInt64.not_lt.mp hlow) (UInt64.le_of_lt hlt)⟩
    · next hge =>
      have hpower : IsPowerOfTwo (m.currentDiff >>> 1) := by
        refine h.half.resolve_right fun hzero => ?_
        rw [hzero, UInt64.lt_iff_toNat_lt] at hge
        exact hge hmin
      exact ⟨hpower, UInt64.not_lt.mp hge, UInt64.not_lt.mp hlow⟩

end Admitted

end ChirpGateway
