import ChirpGateway.Coinbase.Coinbaser
import ChirpGateway.Lib.Merkle
import ChirpGateway.Lib.Tables
import ChirpGateway.Pow.Header
import ChirpGateway.Template.Block

/-!
# Stratum jobs

`T_DATUM_STRATUM_JOB` and the commitment of a job on a header of version 2
(`datum_stratum.c:2106-2310`). `sha256` is the hash function.
-/

namespace ChirpGateway

open Bytes

/-- A transaction with the marker of a witness behind its version, for which
    `datum_stratum_coinbase_for_block_hex` looks. -/
def alreadyWitnessed (txn : List UInt8) : Bool :=
  6 ≤ txn.length && txn.getD 4 0 = 0 && txn.getD 5 0 = 1

/-- The extranonce in the coinbase of a header of version 2. -/
def zeroExtranonce : List UInt8 := List.replicate 12 0

section Coinbases

variable {job : CoinbaserJob} {input : List UInt8}

theorem cbStart_isPrefix_writeCoinbase (spaceForEn special : Bool)
    (packed : List (Nat × DatumTxnOutput)) :
    cbStart <+:
      (writeCoinbase job (coinb1Base job input spaceForEn) spaceForEn special
        packed).coinb1Bin := by
  cases spaceForEn with
  | false =>
    simp only [writeCoinbase, coinb1Base, Bool.false_eq_true, if_false, List.append_assoc]
    exact List.prefix_append _ _
  | true =>
    simp only [writeCoinbase, coinb1Base, if_true, List.append_assoc]
    exact List.prefix_append _ _

theorem cbStart_isPrefix_coinbase {tags : CoinbaseTags} {set : CoinbaseSet}
    (h : generateCoinbaseTxns tags job = some set) (type : Fin 6) :
    cbStart <+: (set.coinbase type).coinb1Bin := by
  obtain ⟨input, -, rfl⟩ := Option.map_eq_some_iff.mp h
  dsimp only
  split
  · exact cbStart_isPrefix_writeCoinbase _ _ _
  · exact cbStart_isPrefix_writeCoinbase _ _ _

/-- A transaction that starts so has one input, not the marker of a witness. -/
theorem alreadyWitnessed_of_cbStart {coinbase : StratumCoinbase}
    (h : cbStart <+: coinbase.coinb1Bin) (extranonce : List UInt8) :
    alreadyWitnessed (coinbase.txn extranonce) = false := by
  obtain ⟨rest, hrest⟩ := h
  unfold alreadyWitnessed StratumCoinbase.txn
  rw [← hrest]
  have hfour : (cbStart ++ rest ++ extranonce ++ coinbase.coinb2Bin).getD 4 0 = 1 := rfl
  rw [hfour]
  simp

end Coinbases

/-- A job on a template of header version 2 (`stratum_job_is_blake2b`), with the
    coinbases it has now. Those that are not written yet are empty. -/
structure StratumJob where
  /-- without the index of a coinbase -/
  jobId : List UInt8
  blockTemplate : BlockTemplate
  blockTarget : Hash32
  coinbase : Fin 6 → StratumCoinbase
  subsidyOnlyCoinbase : StratumCoinbase
  blake2bCoinbaseIndex : Fin 6
  carouselSupplier : List UInt8
  tsms : UInt64
  isStalePrevblock : Bool
  isBlake2b : blockTemplate.headerVersion ≥ 2
  /-- written when the job is created -/
  coinbase_start : cbStart <+: (coinbase 0).coinb1Bin
  coinbase_unmarked : ∀ i, alreadyWitnessed ((coinbase i).txn zeroExtranonce) = false
  subsidyOnly_unmarked : alreadyWitnessed (subsidyOnlyCoinbase.txn zeroExtranonce) = false

/-- The coinbase the job commits to. -/
def StratumJob.committedCoinbase (job : StratumJob) : StratumCoinbase :=
  job.coinbase job.blake2bCoinbaseIndex

section Hashes

variable (sha256 : List UInt8 → Hash32) (job : StratumJob)

/-- `stratum_calculate_merkle_branches`: the transactions are what stands behind a
    coinbase that is not known yet. -/
def merkleBranches : List Hash32 :=
  Merkle.branches (hashPair sha256) (job.blockTemplate.txns.map TemplateTxn.txidBin)

/-- `stratum_job_merkle_root_calc`. -/
def merkleRootCalc (coinbaseTxnHash : Hash32) : Hash32 :=
  (merkleBranches sha256 job).foldl (hashPair sha256) coinbaseTxnHash

/-- `datum_blake2b_commit_for_coinbase`. -/
def commitForCoinbase (coinbase : StratumCoinbase) : Hash32 :=
  let tmpl := job.blockTemplate
  headerCommitment sha256 tmpl.version tmpl.previousblockhashBin tmpl.height
    (merkleRootCalc sha256 job (doubleSha256 sha256 (coinbase.txn zeroExtranonce)))
    tmpl.blake2bTimeOnWire tmpl.bitsUint tmpl.committedTxcount tmpl.headerFlags
    tmpl.xorKeyMaskClearBits tmpl.xorKey tmpl.mergeMiningRhs

/-- `blake2b_commitment`, which `datum_stratum_job_refresh_blake2b` keeps up with
    the coinbase. -/
def blake2bCommitment : Hash32 := commitForCoinbase sha256 job job.committedCoinbase

/-- The root over a coinbase and the transactions of the template. -/
theorem merkleRootCalc_eq (coinbaseTxnHash : Hash32) :
    merkleRootCalc sha256 job coinbaseTxnHash =
      Merkle.root (hashPair sha256) coinbaseTxnHash
        (job.blockTemplate.txns.map TemplateTxn.txidBin) :=
  Merkle.foldl_branches _ _ _

end Hashes

end ChirpGateway
