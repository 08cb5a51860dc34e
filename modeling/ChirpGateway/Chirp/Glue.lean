import ChirpGateway.Address.OutputScript
import ChirpGateway.Chirp.Registry
import ChirpGateway.Chirp.Snapshot

/-!
# Filling the outputs of a job

`chirp_glue_fill_outputs` (`datum_chirp_glue.c:226-293`): the supplier's part,
the split of the rest, the commitment, and the outputs of the job. `jsonDumps` is
the canonical text of an object and `blake2b256` the hash of that text.
-/

namespace ChirpGateway

open Bytes

/-- `T_DATUM_TXN_OUTPUT`. -/
structure DatumTxnOutput where
  outputScript : List UInt8
  valueSats : Nat
  deriving DecidableEq, Repr

/-- The settings CHIRP reads, as `datum_conf.c:657-667` admits them. -/
structure ChirpConfig where
  miningBlake2bTemplate : Bool
  miningTemplateSupplierBps : Nat
  miningChirpFeeBps : Nat
  share_left : miningChirpFeeBps + miningTemplateSupplierBps < 10000

/-- `fee_bps`, with `CHIRP_FEE_BPS` for an unset fee. -/
def ChirpConfig.feeBps (config : ChirpConfig) : UInt16 :=
  UInt16.ofNat (if config.miningChirpFeeBps > 0 then config.miningChirpFeeBps else 90)

/-- The script of the commitment: `OP_RETURN`, one push of 38 bytes. -/
def commitmentScript (hash32 : Hash32) : List UInt8 :=
  [0x6a, 6 + 32] ++ ascii "CHIRP1" ++ hash32.bytes

/-- What `chirp_glue_fill_outputs` leaves behind: the pruned registry, what it
    commits to if the snapshot is enabled, and the outputs. -/
structure ChirpFill where
  registry : List ChirpMiner
  snapshot : SnapshotInput
  outputs : List DatumTxnOutput

section Fill

variable (sha256 : List UInt8 → List UInt8) (config : ChirpConfig) (job : SplitJob)

/-- `supplier`; `none` is `NULL`. -/
def chirpSupplier : Option ChirpAddr :=
  if config.miningBlake2bTemplate && !job.carouselSupplier.bytes.isEmpty then
    some job.carouselSupplier
  else
    none

/-- `sup_script`, if there is a supplier and its address decodes. -/
def supplierScript : Option (List UInt8) :=
  (chirpSupplier config job).bind fun supplier => addr2OutputScript sha256 supplier.bytes

/-- `supplier_bps`, zero for a supplier that does not decode. -/
def supplierBps : UInt16 :=
  if (supplierScript sha256 config job).isSome then
    UInt16.ofNat config.miningTemplateSupplierBps
  else
    0

/-- `supplier_sats`. -/
def supplierSats : UInt64 :=
  UInt64.ofNat (job.coinbaseValue.toNat * (supplierBps sha256 config job).toNat / 10000)

/-- `split_total`. -/
def splitTotal : UInt64 :=
  job.coinbaseValue - supplierSats sha256 config job

/-- The supplier's output, unless it is dust. -/
def supplierOutputs : List DatumTxnOutput :=
  match supplierScript sha256 config job with
  | none => []
  | some supScript =>
    if (supplierSats sha256 config job).toNat ≥ chirpMinPayoutSats then
      [{ outputScript := supScript, valueSats := (supplierSats sha256 config job).toNat }]
    else
      []

/-- The loop over the payouts. A payout that does not decode is left to the
    pool. -/
def payoutOutputs : (written : Nat) → List ChirpPayout → List DatumTxnOutput
  | _, [] => []
  | written, payout :: payouts =>
    if written < 500 then
      match addr2OutputScript sha256 payout.addr.bytes with
      | none => payoutOutputs written payouts
      | some script =>
        { outputScript := script, valueSats := payout.sats } :: payoutOutputs (written + 1) payouts
    else
      []

variable {K : Type} [LinearOrder K]
variable (qsort : Qsort.Sorter (K × ChirpCand)) (drawKey : Nat → List UInt8 → Rat → K)
variable (jsonDumps : Json → List UInt8) (blake2b256 : List UInt8 → Hash32)
variable (env : ChirpEnv) (now : UInt64) (registry : List ChirpMiner)

/-- The split of what the supplier leaves. -/
def chirpGlueSplit : ChirpSplit :=
  chirpSplit qsort drawKey (chirpCandidates env registry now).2
    (splitTotal sha256 config job) config.feeBps job.seed

/-- The arguments of `chirp_snapshot_commit`. -/
def chirpGlueSnapshot : SnapshotInput where
  job := job
  now := now
  seed := job.seed
  cands := (chirpCandidates env registry now).2
  payouts := (chirpGlueSplit sha256 config job qsort drawKey env now registry).payouts
  poolTotal := (chirpGlueSplit sha256 config job qsort drawKey env now registry).poolTotal
  feeBps := config.feeBps
  supplier := (chirpSupplier config job).map ChirpAddr.bytes
  supplierBps := supplierBps sha256 config job
  supplierSats := supplierSats sha256 config job
  splitTotal := splitTotal sha256 config job

@[simp] theorem chirpGlueSnapshot_payouts :
    (chirpGlueSnapshot sha256 config job qsort drawKey env now registry).payouts =
      (chirpGlueSplit sha256 config job qsort drawKey env now registry).payouts := rfl

@[simp] theorem chirpGlueSnapshot_poolTotal :
    (chirpGlueSnapshot sha256 config job qsort drawKey env now registry).poolTotal =
      (chirpGlueSplit sha256 config job qsort drawKey env now registry).poolTotal := rfl

@[simp] theorem chirpGlueSnapshot_supplier :
    (chirpGlueSnapshot sha256 config job qsort drawKey env now registry).supplier =
      (chirpSupplier config job).map ChirpAddr.bytes := rfl

@[simp] theorem chirpGlueSnapshot_supplierSats :
    (chirpGlueSnapshot sha256 config job qsort drawKey env now registry).supplierSats =
      supplierSats sha256 config job := rfl

/-- Output 0: no value, and the hash of the snapshot. -/
def commitmentOutput (input : SnapshotInput) : DatumTxnOutput where
  outputScript := commitmentScript (blake2b256 (jsonDumps (chirpSnapshot input)))
  valueSats := 0

/-- Output 0, unless the snapshot is disabled. -/
def commitmentOutputs (input : SnapshotInput) : List DatumTxnOutput :=
  if env.snapshotCommit then [commitmentOutput jsonDumps blake2b256 input] else []

/-- `chirp_glue_fill_outputs`; `none` where it returns before it reads
    anything. -/
def chirpGlueFillOutputs : Option ChirpFill :=
  if job.coinbaseValue = 0 then
    none
  else
    let input := chirpGlueSnapshot sha256 config job qsort drawKey env now registry
    let front := commitmentOutputs jsonDumps blake2b256 env input ++
      supplierOutputs sha256 config job
    some {
      registry := (chirpCandidates env registry now).1
      snapshot := input
      outputs := front ++ payoutOutputs sha256 front.length input.payouts }

/-! ## The supplier's part -/

theorem supplierBps_le : (supplierBps sha256 config job).toNat ≤ 10000 := by
  have hshare := config.share_left
  simp only [supplierBps]
  split
  · rw [UInt16.toNat_ofNat']
    exact (Nat.mod_le _ _).trans (by omega)
  · decide

theorem supplierSats_toNat :
    (supplierSats sha256 config job).toNat =
      job.coinbaseValue.toNat * (supplierBps sha256 config job).toNat / 10000 ∧
    (supplierSats sha256 config job).toNat ≤ job.coinbaseValue.toNat := by
  have hle : job.coinbaseValue.toNat * (supplierBps sha256 config job).toNat / 10000 ≤
      job.coinbaseValue.toNat := by
    apply Nat.div_le_of_le_mul
    rw [Nat.mul_comm 10000]
    exact Nat.mul_le_mul_left _ (supplierBps_le sha256 config job)
  have heq : (supplierSats sha256 config job).toNat =
      job.coinbaseValue.toNat * (supplierBps sha256 config job).toNat / 10000 := by
    rw [supplierSats, UInt64.toNat_ofNat']
    exact Nat.mod_eq_of_lt (lt_of_le_of_lt hle job.coinbaseValue.toNat_lt)
  exact ⟨heq, heq ▸ hle⟩

/-- The supplier's part and the rest make up the whole. -/
theorem splitTotal_add_supplierSats :
    (splitTotal sha256 config job).toNat + (supplierSats sha256 config job).toNat =
      job.coinbaseValue.toNat := by
  obtain ⟨-, hle⟩ := supplierSats_toNat sha256 config job
  rw [splitTotal, UInt64.toNat_sub_of_le _ _ (UInt64.le_iff_toNat_le.mpr hle)]
  omega

/-- Without a script there is no part. -/
theorem supplierSats_eq_zero (h : supplierScript sha256 config job = none) :
    supplierSats sha256 config job = 0 := by
  simp [supplierSats, supplierBps, h]

/-! ## The payout loop -/

/-- The output of a payout, if its address decodes. -/
def payoutOutput (payout : ChirpPayout) : Option DatumTxnOutput :=
  (addr2OutputScript sha256 payout.addr.bytes).map fun script =>
    { outputScript := script, valueSats := payout.sats }

/-- The array has room for every payout. -/
theorem payoutOutputs_eq {written : Nat} {payouts : List ChirpPayout}
    (hroom : written + payouts.length ≤ 500) :
    payoutOutputs sha256 written payouts = payouts.filterMap (payoutOutput sha256) := by
  induction payouts generalizing written with
  | nil => rfl
  | cons payout payouts ih =>
    rw [List.length_cons] at hroom
    have hlt : written < 500 := by omega
    rw [payoutOutputs, if_pos hlt, List.filterMap_cons, payoutOutput]
    cases addr2OutputScript sha256 payout.addr.bytes with
    | none => exact ih (by omega)
    | some script => exact congrArg _ (ih (by omega))

theorem length_supplierOutputs_le : (supplierOutputs sha256 config job).length ≤ 1 := by
  simp only [supplierOutputs]
  split
  · decide
  · split <;> simp

theorem length_commitmentOutputs_le (input : SnapshotInput) :
    (commitmentOutputs jsonDumps blake2b256 env input).length ≤ 1 := by
  rw [commitmentOutputs]
  split <;> simp

theorem length_payouts_le :
    (chirpGlueSplit sha256 config job qsort drawKey env now registry).payouts.length ≤
      chirpMaxN := by
  rw [chirpGlueSplit, chirpSplit_payouts]
  exact (List.length_filterMap_le _ _).trans chirpAdmitted_length_le

/-- What is written for a job: the commitment, the supplier, and every payout
    that decodes. -/
theorem chirpGlueFillOutputs_eq (hvalue : job.coinbaseValue ≠ 0) :
    chirpGlueFillOutputs sha256 config job qsort drawKey jsonDumps blake2b256 env now registry =
      some {
        registry := (chirpCandidates env registry now).1
        snapshot := chirpGlueSnapshot sha256 config job qsort drawKey env now registry
        outputs :=
          commitmentOutputs jsonDumps blake2b256 env
              (chirpGlueSnapshot sha256 config job qsort drawKey env now registry) ++
            (supplierOutputs sha256 config job ++
              (chirpGlueSplit sha256 config job qsort drawKey env now registry).payouts.filterMap
                (payoutOutput sha256)) } := by
  have hpayouts := length_payouts_le sha256 config job qsort drawKey env now registry
  have hsupplier := length_supplierOutputs_le sha256 config job
  have hmax : chirpMaxN = 490 := rfl
  have hcommitment := length_commitmentOutputs_le jsonDumps blake2b256 env
    (chirpGlueSnapshot sha256 config job qsort drawKey env now registry)
  rw [chirpGlueFillOutputs, if_neg hvalue]
  simp only
  rw [payoutOutputs_eq, List.append_assoc]
  · rfl
  · rw [List.length_append, chirpGlueSnapshot_payouts]
    omega

end Fill

end ChirpGateway
