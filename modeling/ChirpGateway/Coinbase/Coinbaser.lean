import ChirpGateway.Chirp.Glue
import ChirpGateway.Coinbase.Input
import ChirpGateway.Lib.Hex
import ChirpGateway.Lib.Tables
import ChirpGateway.Lib.Wire

/-!
# The coinbases of a job

`generate_coinbase_txns_for_stratum_job` and what it calls
(`datum_coinbaser.c:208-367` and `528-795`), without a pool. The source writes
hexadecimal text and converts it at the end; here are the bytes. A script has
fewer than 76 bytes, so that its length is one byte.
-/

namespace ChirpGateway

open Bytes Wire

/-- `T_DATUM_STRATUM_COINBASE`: what comes before and behind the extranonce. -/
structure StratumCoinbase where
  coinb1Bin : List UInt8
  coinb2Bin : List UInt8
  deriving DecidableEq

/-- The transaction with an extranonce. -/
def StratumCoinbase.txn (coinbase : StratumCoinbase) (extranonce : List UInt8) : List UInt8 :=
  coinbase.coinb1Bin ++ extranonce ++ coinbase.coinb2Bin

/-- The fields of a job that the coinbaser reads. -/
structure CoinbaserJob where
  blockTemplate : DatumTemplate
  enPrefix : UInt16
  carouselSupplier : ChirpAddr
  carouselSupplierName : List UInt8
  poolAddrScript : List UInt8
  availableCoinbaseOutputs : List DatumTxnOutput

/-- `s->coinbase_value`, set from the template. -/
def CoinbaserJob.coinbaseValue (job : CoinbaserJob) : Nat :=
  job.blockTemplate.coinbasevalue.toNat

/-- The job as CHIRP reads it. -/
def CoinbaserJob.splitJob (job : CoinbaserJob) : SplitJob where
  height := job.blockTemplate.height.toUInt64
  prevhashBin := job.blockTemplate.previousblockhashBin
  coinbaseValue := job.blockTemplate.coinbasevalue
  carouselSupplier := job.carouselSupplier

/-! ## Choosing the outputs -/

/-- The bytes an output is counted with. -/
def outputCost (output : DatumTxnOutput) : Nat := output.outputScript.length + 9

/-- The outputs that fit, with their places in the list. Both loops of the source
    make this choice, the first to count and the second to write. -/
def packOutputs (coinbaseValue : Nat) :
    (room : Int) → (mval k : Nat) → List DatumTxnOutput → List (Nat × DatumTxnOutput)
  | _, _, _, [] => []
  | room, mval, k, output :: outputs =>
    if outputCost output ≤ room ∧ (mval + output.valueSats) % 2 ^ 64 ≤ coinbaseValue then
      let room := room - outputCost output
      let mval := (mval + output.valueSats) % 2 ^ 64
      if room < 30 then [(k, output)]
      else if mval ≥ coinbaseValue then [(k, output)]
      else (k, output) :: packOutputs coinbaseValue room mval (k + 1) outputs
    else
      packOutputs coinbaseValue room mval (k + 1) outputs

/-- `c1cnt`: how many of the chosen outputs `coinb1` takes. -/
def specialCount (coinb1Length : Nat) (packed : List (Nat × DatumTxnOutput)) : Nat :=
  (Budget.takeWithin (fun entry => outputCost entry.2) (150 - coinb1Length) 0 packed).length

/-! ## The transaction -/

/-- `cbstart_hex`. -/
def cbStart : List UInt8 :=
  [1, 0, 0, 0, 1] ++ List.replicate 32 0 ++ List.replicate 4 0xff

/-- "sequence". -/
def coinbaseSequence : List UInt8 := List.replicate 4 0xff

def enPrefixBytes (enPrefix : UInt16) : List UInt8 :=
  [UInt8.ofNat (enPrefix.toNat / 256), UInt8.ofNat enPrefix.toNat]

def DatumTxnOutput.toTxOut (output : DatumTxnOutput) : TxOut where
  value := output.valueSats
  script := output.outputScript

/-- The pool's output for what is left over, or a dead one in its place. -/
def poolOutput (job : CoinbaserJob) (paid : Nat) : TxOut :=
  if job.coinbaseValue > paid then
    { value := job.coinbaseValue - paid, script := job.poolAddrScript }
  else
    { value := 0, script := [0x6a, 0x01, 0x00] }

/-- The output of the witness commitment and the lock time. -/
def coinbaseTail (tmpl : DatumTemplate) : List UInt8 :=
  List.replicate 8 0 ++ UInt8.ofNat (tmpl.defaultWitnessCommitment.length / 2) ::
    Hex.decode (tmpl.defaultWitnessCommitment ++ ascii "00000000")

/-- `coinb1` up to the extranonce, or to the output count. -/
def coinb1Base (job : CoinbaserJob) (input : List UInt8) (spaceForEn : Bool) : List UInt8 :=
  if spaceForEn then
    cbStart ++ varint (input.length + 15) ++ input ++ 0x0e :: enPrefixBytes job.enPrefix
  else
    cbStart ++ varint input.length ++ input ++ coinbaseSequence

/-- The start of the output that carries an extranonce the script has no room
    for. -/
def extranonceFront (enPrefix : UInt16) : List UInt8 :=
  List.replicate 8 0 ++ [0x10, 0x6a, 0x0e] ++ enPrefixBytes enPrefix

/-- What an output list is written as behind `base`, which has the extranonce or
    not. -/
def writeCoinbase (job : CoinbaserJob) (base : List UInt8) (spaceForEn special : Bool)
    (packed : List (Nat × DatumTxnOutput)) : StratumCoinbase :=
  let outputs (entries : List (Nat × DatumTxnOutput)) :=
    entries.flatMap fun entry => entry.2.toTxOut.encode
  let c1cnt := specialCount base.length packed
  let inCoinb1 := if special then packed.filter (·.1 < c1cnt) else []
  let inCoinb2 := if special then packed.filter (c1cnt ≤ ·.1) else packed
  let tail :=
    (poolOutput job ((packed.map fun entry => entry.2.valueSats).sum % 2 ^ 64)).encode ++
      coinbaseTail job.blockTemplate
  if spaceForEn then
    { coinb1Bin := base
      coinb2Bin := coinbaseSequence ++ varint (packed.length + 2) ++ outputs inCoinb2 ++ tail }
  else
    { coinb1Bin := base ++ varint (packed.length + 3) ++ outputs inCoinb1 ++
        extranonceFront job.enPrefix
      coinb2Bin := outputs inCoinb2 ++ tail }

/-! ## Its size -/

/-- The cast of a 64-bit value to `int`. -/
def toInt32 (value : Int) : Int := value.bmod (2 ^ 32)

/-- `txn_total_size` with the header and the witness, a 32-bit sum. -/
def sizeUsed (tmpl : DatumTemplate) : Nat :=
  (tmpl.txnTotalSize.toNat + 85 + 36 + (if tmpl.headerVersion ≥ 2 then 84 else 0)) % 2 ^ 32

/-- `txn_total_weight` with the header and the witness, a 32-bit sum. -/
def weightUsed (tmpl : DatumTemplate) : Nat :=
  (tmpl.txnTotalWeight.toNat + 340 + 36) % 2 ^ 32

/-- A coinbase of `i` bytes exceeds the size limit. -/
def sizeTight (tmpl : DatumTemplate) (i : Nat) : Bool :=
  (i + sizeUsed tmpl) % 2 ^ 32 > tmpl.sizelimit.toNat

/-- A coinbase of `i` bytes exceeds the weight limit. -/
def weightTight (tmpl : DatumTemplate) (i : Nat) : Bool :=
  (4 * i + weightUsed tmpl) % 2 ^ 32 > tmpl.weightlimit.toNat

/-- `datum_stratum_coinbase_fit_to_template`. -/
def fitToTemplate (maxSz fixedBytes : Nat) (tmpl : DatumTemplate) : Int :=
  let i := fixedBytes + maxSz
  let bySize := toInt32 ((tmpl.sizelimit.toNat : Int) - sizeUsed tmpl - fixedBytes)
  let byWeight :=
    toInt32 (((tmpl.weightlimit.toNat : Int) - weightUsed tmpl) % 2 ^ 64 / 4 - fixedBytes)
  if sizeTight tmpl i && bySize < 0 then 0
  else if weightTight tmpl i && byWeight < 0 then 0
  else
    let msz1 : Int :=
      if weightTight tmpl i then byWeight
      else if sizeTight tmpl i then bySize
      else maxSz + fixedBytes
    let msz1 := if msz1 < 0 then 0 else msz1
    if msz1 < maxSz - fixedBytes then msz1 else maxSz - fixedBytes

/-- The types of coinbases: empty, Nicehash, Antminer, Whatsminer, YUGE and
    Antminer 2, with the size each may have. -/
def coinbaseMaxSize : Fin 6 → Nat
  | 0 => 0
  | 1 => 500
  | 2 => 755
  | 3 => 6500
  | 4 => 16000
  | 5 => 2250

/-- `cb_req_sz`. -/
def cbReqSz (job : CoinbaserJob) (input : List UInt8) (type : Fin 6) : Nat :=
  119 + job.poolAddrScript.length + input.length +
    if type = 2 ∨ input.length > 85 then 10 else 0

/-- What `generate_coinbase_txns_for_stratum_job` sets. -/
structure CoinbaseSet where
  coinbase : Fin 6 → StratumCoinbase
  targetPotIndex : Nat
  blake2bCoinbaseIndex : Fin 6

/-- The coinbase of one type, where there are outputs to pay. -/
def typedCoinbase (job : CoinbaserJob) (input : List UInt8) (type : Fin 6) : StratumCoinbase :=
  let spaceForEn := input.length ≤ 85 && type ≠ 2
  let room := fitToTemplate (coinbaseMaxSize type) (cbReqSz job input type) job.blockTemplate
  writeCoinbase job (coinb1Base job input spaceForEn) spaceForEn (type = 2)
    (packOutputs job.coinbaseValue room 0 0 job.availableCoinbaseOutputs)

/-- The coinbase that pays the pool only. -/
def emptyCoinbase (job : CoinbaserJob) (input : List UInt8) : StratumCoinbase :=
  let spaceForEn := input.length ≤ 85
  writeCoinbase job (coinb1Base job input spaceForEn) spaceForEn false []

/-- `generate_coinbase_txns_for_stratum_job`, for a job whose outputs are
    filled. -/
def generateCoinbaseTxns (tags : CoinbaseTags) (job : CoinbaserJob) : Option CoinbaseSet :=
  (generateCoinbaseInput tags job.blockTemplate job.carouselSupplierName).map fun input =>
    let emptyOnly := job.availableCoinbaseOutputs.isEmpty
    { coinbase := fun type =>
        if emptyOnly ∨ type = 0 then emptyCoinbase job input.bytes
        else typedCoinbase job input.bytes type
      targetPotIndex := input.targetPotIndex + cbStart.length + 1
      blake2bCoinbaseIndex := if emptyOnly then 0 else 4 }

end ChirpGateway
