import ChirpGateway.Stratum.Job

/-!
# The coinbase of one miner

`datum_blake2b_build_user_coinbase` (`datum_coinbaser.c:813-881`): the first half
of the pool's coinbase, and outputs for the miner, the supplier, the fee and the
witness commitment. `decode` is `addr_2_output_script` into 64 bytes.
-/

namespace ChirpGateway

open Bytes Wire

/-- The settings for coinbases of single miners, as `datum_conf.c:654-660` admits
    them. -/
structure LottoConfig where
  miningBlake2bPersonalLotto : Bool
  miningBlake2bTemplate : Bool
  miningBlake2bTemplateCarousel : Bool
  miningTemplateSupplierAddress : List UInt8
  miningTemplateSupplierBps : Nat
  miningTemplatePoolBps : Nat
  share_left : miningTemplateSupplierBps + miningTemplatePoolBps < 10000

/-- `BLAKE2B_LOTTO_FEE_ADDR`. -/
def blake2bLottoFeeAddr : List UInt8 := ascii "1PyBLoCKdiaC46vD9CWcmxa3ey2VzSc5Q2"

/-- `BLAKE2B_LOTTO_FEE_BPS`. -/
def blake2bLottoFeeBps : UInt16 := 90

/-- Basis points of a value, with the products of 64 bits. -/
def bpsOf (total : UInt64) (bps : Nat) : UInt64 := total * UInt64.ofNat bps / 10000

/-- A script that fits the 64 bytes the source keeps for it. -/
def isScript (script : List UInt8) : Bool := 0 < script.length && script.length ≤ 64

theorem isScript_iff {script : List UInt8} :
    isScript script = true ↔ 0 < script.length ∧ script.length ≤ 64 := by
  simp only [isScript, Bool.and_eq_true, decide_eq_true_eq]

/-- An output as the source writes it: the length of the script is one byte. -/
def userTxOut (value : UInt64) (script : List UInt8) : List UInt8 :=
  leBytes 8 value.toNat ++ (UInt8.ofNat script.length :: script)

section Build

variable (decode : List UInt8 → Option (List UInt8)) (config : LottoConfig) (job : StratumJob)

/-- `sup_addr`: pinned to the job in carousel mode, else from the settings. -/
def userSupplierAddress : List UInt8 :=
  if config.miningBlake2bTemplateCarousel then job.carouselSupplier
  else config.miningTemplateSupplierAddress

/-- The supplier's script where `tmpl` stays set. -/
def userSupplierScript : Option (List UInt8) :=
  if config.miningBlake2bTemplate && !(userSupplierAddress config job).isEmpty then
    (decode (userSupplierAddress config job)).filter isScript
  else
    none

/-- What the outputs of the miner, the supplier and the fee are worth. -/
structure UserValues where
  user : UInt64
  supplier : UInt64
  fee : UInt64
  deriving DecidableEq

def userValues (feeBps : UInt16) : UserValues :=
  let total := job.blockTemplate.coinbasevalue
  let isTemplate := (userSupplierScript decode config job).isSome
  let supplier := if isTemplate then bpsOf total config.miningTemplateSupplierBps else 0
  let effFeeBps := if isTemplate then config.miningTemplatePoolBps else feeBps.toNat
  let fee := bpsOf total effFeeBps
  { user := total - fee - supplier, supplier, fee }

/-- `wc_len`. -/
def userWitnessLength : Nat :=
  let length := job.blockTemplate.defaultWitnessCommitment.length / 2
  if length > 48 then 0 else length

/-- The bytes of `default_witness_commitment_bin` that are used. -/
def userWitness : List UInt8 :=
  (Hex.decode job.blockTemplate.defaultWitnessCommitment).take (userWitnessLength job)

/-- `coinb2`. -/
def userCoinb2 (userScript feeScript : List UInt8) (feeBps : UInt16) : List UInt8 :=
  let values := userValues decode config job feeBps
  let supplierScript := userSupplierScript decode config job
  let witnessed := 0 < userWitnessLength job
  let count := 2 + (if supplierScript.isSome then 1 else 0) + if witnessed then 1 else 0
  coinbaseSequence ++ [UInt8.ofNat count] ++ userTxOut values.user userScript ++
    (match supplierScript with
      | some script => userTxOut values.supplier script
      | none => []) ++
    userTxOut values.fee feeScript ++
    (if witnessed then
      List.replicate 8 0 ++ (UInt8.ofNat (userWitnessLength job) :: userWitness job)
    else []) ++
    List.replicate 4 0

/-- `datum_blake2b_build_user_coinbase`. -/
def buildUserCoinbase (userScript feeScript : List UInt8) (feeBps : UInt16) :
    Option StratumCoinbase :=
  let coinb1 := (job.coinbase 0).coinb1Bin
  if !isScript userScript || !isScript feeScript then none
  else if coinb1.length = 0 || coinb1.length > 512 then none
  else
    let coinb2 := userCoinb2 decode config job userScript feeScript feeBps
    if coinb2.length > 16384 then none
    else some { coinb1Bin := coinb1, coinb2Bin := coinb2 }

/-- The coinbase of a miner with this script, as the notify and the submit build
    it; `none` where they fall back to the pool's. -/
def lottoCoinbase (userScript : Option (List UInt8)) : Option StratumCoinbase :=
  if config.miningBlake2bPersonalLotto then
    userScript.bind fun script => (decode blake2bLottoFeeAddr).bind fun feeScript =>
      if feeScript.length = 0 then none
      else buildUserCoinbase decode config job script feeScript blake2bLottoFeeBps
  else
    none

variable {decode config job}

/-- It starts as the pool's coinbase does. -/
theorem coinb1Bin_of_lottoCoinbase {userScript : Option (List UInt8)}
    {coinbase : StratumCoinbase} (h : lottoCoinbase decode config job userScript = some coinbase) :
    coinbase.coinb1Bin = (job.coinbase 0).coinb1Bin := by
  simp only [lottoCoinbase] at h
  split at h
  · obtain ⟨script, -, h⟩ := Option.bind_eq_some_iff.mp h
    obtain ⟨feeScript, -, h⟩ := Option.bind_eq_some_iff.mp h
    simp only [buildUserCoinbase] at h
    split_ifs at h
    cases h
    rfl
  · cases h

end Build

end ChirpGateway
