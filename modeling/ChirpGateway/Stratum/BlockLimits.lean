import ChirpGateway.Coinbase.Size
import ChirpGateway.Stratum.Block

/-!
# The limits of a block

What `assembleBlockAndSubmit` writes (`datum_stratum.c:2504-2597`) in bytes and in
weight, against the limits of the template. The coinbaser counts its room from the
same limits with reserves of its own (`datum_coinbaser.c:338-367` and `717-761`).
-/

namespace ChirpGateway

open Bytes Wire

/-! ## Sizes -/

/-- `assembleBlockAndSubmit`, around a coinbase and behind a header of either
    version. -/
def writtenBlock (tmpl : BlockTemplate) (header coinbaseTxn : List UInt8) : SubmittedBlock where
  header
  txCount := tmpl.txns.length + 1
  coinbase :=
    (coinbaseForBlock coinbaseTxn (!tmpl.defaultWitnessCommitment.isEmpty)).getD coinbaseTxn
  transactions := tmpl.txns

/-- The size of a header. -/
def blockHeaderSize (tmpl : DatumTemplate) : Nat :=
  if tmpl.headerVersion ≥ 2 then 164 else 80

/-- Three times the size without the coinbase's witness, and the size with it; the
    transactions weigh what the template says. -/
def SubmittedBlock.weight (block : SubmittedBlock) (tmpl : DatumTemplate) : Nat :=
  let front := block.header.length + (varint block.txCount).length
  3 * (front + (strippedTxn block.coinbase).length) + (front + block.coinbase.length) +
    tmpl.txnTotalWeight.toNat

structure SubmittedBlock.WithinLimits (block : SubmittedBlock) (tmpl : DatumTemplate) :
    Prop where
  size : block.bytes.length ≤ tmpl.sizelimit.toNat
  weight : block.weight tmpl ≤ tmpl.weightlimit.toNat

/-- The bytes of the header and of the number of transactions. -/
def frontSize (tmpl : BlockTemplate) : Nat :=
  blockHeaderSize tmpl.toDatumTemplate + (varint (tmpl.txns.length + 1)).length

/-- The same for a coinbase of so many bytes, to which a witness of 36 is added. -/
@[mk_iff]
structure BlockFits (tmpl : BlockTemplate) (coinbase : Nat) : Prop where
  size : frontSize tmpl + coinbase + 36 + tmpl.txnTotalSize.toNat ≤ tmpl.sizelimit.toNat
  weight : 4 * (frontSize tmpl + coinbase) + 36 + tmpl.txnTotalWeight.toNat ≤
    tmpl.weightlimit.toNat

theorem BlockFits.of_le {tmpl : BlockTemplate} {coinbase other : Nat}
    (h : BlockFits tmpl other) (hle : coinbase ≤ other) : BlockFits tmpl coinbase := by
  obtain ⟨hsize, hweight⟩ := h
  constructor <;> omega

section Written

variable {tmpl : BlockTemplate} {header coinbaseTxn : List UInt8}

/-- A share for full work has its block written so. -/
theorem assembleBlock_eq_writtenBlock (work : SubmittedWork) (hfull : work.emptyWork = false)
    (sha256 blake2b : List UInt8 → Hash32) :
    work.assembleBlock sha256 blake2b =
      writtenBlock work.job.blockTemplate
        (serializeBlockHeader (work.blockHeader sha256 blake2b)) work.coinbaseTxn := by
  simp [SubmittedWork.assembleBlock, writtenBlock, SubmittedWork.blockCoinbase,
    SubmittedWork.blockTransactions, blockNeedsWitness, hfull]

theorem writtenBlock_coinbase (hunmarked : alreadyWitnessed coinbaseTxn = false)
    (hlow : 8 ≤ coinbaseTxn.length) (hhigh : coinbaseTxn.length ≤ maxCoinbaseTxnSize) :
    (writtenBlock tmpl header coinbaseTxn).coinbase = insertWitness coinbaseTxn := by
  have hcommitment : (!tmpl.defaultWitnessCommitment.isEmpty) = true := by
    have hlen := tmpl.witnessCommitment_length.1
    cases htext : tmpl.defaultWitnessCommitment with
    | nil =>
      rw [htext] at hlen
      cases hlen
    | cons ch text => rfl
  rw [writtenBlock, hcommitment]
  simp only [coinbaseForBlock, hunmarked, Bool.not_false, Bool.and_true, if_true]
  rw [if_neg (Nat.not_lt.mpr hlow), if_neg (by omega), Option.getD_some]

theorem withinLimits_writtenBlock_iff
    (hheader : header.length = blockHeaderSize tmpl.toDatumTemplate)
    (hunmarked : alreadyWitnessed coinbaseTxn = false) (hlow : 8 ≤ coinbaseTxn.length)
    (hhigh : coinbaseTxn.length ≤ maxCoinbaseTxnSize) :
    (writtenBlock tmpl header coinbaseTxn).WithinLimits tmpl.toDatumTemplate ↔
      BlockFits tmpl coinbaseTxn.length := by
  have hcoinbase := @writtenBlock_coinbase tmpl header coinbaseTxn hunmarked hlow hhigh
  have hlen := length_insertWitness hlow
  have hstripped := strippedTxn_insertWitness hlow
  have hbytes : (writtenBlock tmpl header coinbaseTxn).bytes.length =
      frontSize tmpl + coinbaseTxn.length + 36 + tmpl.txnTotalSize.toNat := by
    have hdata : (tmpl.txns.flatMap TemplateTxn.data).length = tmpl.txnTotalSize.toNat := by
      rw [tmpl.txnTotalSize_eq, List.length_flatMap]
    rw [SubmittedBlock.bytes, hcoinbase, List.length_append, List.length_append,
      List.length_append, hlen]
    show header.length + (varint (tmpl.txns.length + 1)).length + (coinbaseTxn.length + 36) +
      (tmpl.txns.flatMap TemplateTxn.data).length = _
    rw [hdata, hheader, frontSize]
    omega
  have hweight : (writtenBlock tmpl header coinbaseTxn).weight tmpl.toDatumTemplate =
      4 * (frontSize tmpl + coinbaseTxn.length) + 36 + tmpl.txnTotalWeight.toNat := by
    rw [SubmittedBlock.weight, hcoinbase, hlen, hstripped]
    show 3 * (header.length + (varint (tmpl.txns.length + 1)).length + coinbaseTxn.length) +
      (header.length + (varint (tmpl.txns.length + 1)).length + (coinbaseTxn.length + 36)) + _ = _
    rw [hheader, frontSize]
    omega
  rw [blockFits_iff, ← hbytes, ← hweight]
  exact ⟨fun h => ⟨h.size, h.weight⟩, fun h => ⟨h.1, h.2⟩⟩

end Written

/-! ## The limits of a template -/

/-- The job whose coinbases are made on a template. -/
def limitedJob (tmpl : BlockTemplate) (job : CoinbaserJob) (outputs : List DatumTxnOutput) :
    CoinbaserJob :=
  { job with
    blockTemplate := tmpl.toDatumTemplate
    availableCoinbaseOutputs := outputs }

/-- Whatever outputs are available, the block around the coinbase of one type is
    within the limits, if the block around the pool's alone is. -/
def RespectsLimits (tags : CoinbaseTags) (tmpl : BlockTemplate) (job : CoinbaserJob)
    (type : Fin 6) : Prop :=
  ∀ outputs, AvailableOutputs outputs →
    ∀ set, generateCoinbaseTxns tags (limitedJob tmpl job outputs) = some set →
      ∀ header extranonce : List UInt8,
        header.length = blockHeaderSize tmpl.toDatumTemplate → extranonce.length = 12 →
        (writtenBlock tmpl header ((set.coinbase 0).txn extranonce)).WithinLimits
            tmpl.toDatumTemplate →
          (writtenBlock tmpl header ((set.coinbase type).txn extranonce)).WithinLimits
            tmpl.toDatumTemplate

/-! ## The condition -/

/-- The space for an extranonce in the script of a coinbase. -/
def hasSpaceForEn (input : Nat) (type : Fin 6) : Bool := input ≤ 85 && type ≠ 2

/-- The most bytes the number of outputs takes, where these take `cost`: from 250
    outputs for miners on it has three. -/
def countBytes (spaceForEn : Bool) (cost : Nat) : Nat :=
  if (if spaceForEn then 2530 else 2520) ≤ cost then 3 else 1

/-- The coinbase of one type that pays the pool alone. -/
def unpaidSize (tmpl : DatumTemplate) (poolScript input : Nat) (type : Fin 6) : Nat :=
  coinbaseSize tmpl poolScript input (hasSpaceForEn input type) 1 0

/-- The largest coinbase of one type with outputs of so many bytes. The pool's script
    may have been replaced by one of three bytes. -/
def paidSize (tmpl : DatumTemplate) (poolScript input : Nat) (type : Fin 6) (cost : Nat) : Nat :=
  coinbaseSize tmpl (max poolScript 3) input (hasSpaceForEn input type)
    (countBytes (hasSpaceForEn input type) cost) cost

/-- What the reserves of the coinbaser admit fits the block: the coinbase without
    outputs, and outputs of any size within the room. -/
structure ReservesSuffice (tmpl : BlockTemplate) (poolScript input : Nat) (type : Fin 6) :
    Prop where
  unpaid : BlockFits tmpl (unpaidSize tmpl.toDatumTemplate poolScript input type)
  paid : ∀ cost, 10 ≤ cost →
    RoomFor tmpl.toDatumTemplate (coinbaseMaxSize type)
        (119 + poolScript + input + if hasSpaceForEn input type then 0 else 10) cost →
      BlockFits tmpl (paidSize tmpl.toDatumTemplate poolScript input type cost)

/-! ## Reserves and blocks -/

section Sizes

variable {tmpl : DatumTemplate} {poolScript input : Nat} {spaceForEn : Bool}

theorem coinbaseSize_mono {poolScript' countBytes countBytes' cost cost' : Nat}
    (hpool : poolScript ≤ poolScript') (hcount : countBytes ≤ countBytes')
    (hcost : cost ≤ cost') :
    coinbaseSize tmpl poolScript input spaceForEn countBytes cost ≤
      coinbaseSize tmpl poolScript' input spaceForEn countBytes' cost' := by
  unfold coinbaseSize
  dsimp only
  omega

theorem coinbaseSize_le {countBytes cost : Nat} (hpool : poolScript ≤ 64) (hinput : input ≤ 279)
    (hcount : countBytes ≤ 3) (hcost : cost ≤ 16000) :
    coinbaseSize tmpl poolScript input spaceForEn countBytes cost ≤ maxCoinbaseTxnSize := by
  obtain ⟨-, hcommitment⟩ := tmpl.witnessCommitment_length
  have hmax : maxCoinbaseTxnSize = 16960 := rfl
  have hvarint : (varint (if spaceForEn then input + 15 else input)).length ≤ 3 := by
    apply length_varint_le
    split <;> omega
  unfold coinbaseSize
  dsimp only
  split_ifs at hvarint ⊢ <;> omega

/-- Without miners, one byte holds the number of outputs. -/
theorem length_varint_outputCount_zero :
    (varint (outputCount spaceForEn 0)).length = 1 := by
  apply length_varint_of_lt
  unfold outputCount
  split_ifs <;> decide

/-- Where so many outputs are chosen, there is room for the bytes of their
    number. -/
theorem length_varint_outputCount_le {coinbaseValue : Nat} {room : Nat}
    {outputs : List DatumTxnOutput} (hcost : ∀ output ∈ outputs, 10 ≤ outputCost output)
    (hroom : room ≤ 16000) :
    (varint (outputCount spaceForEn
      (packOutputs coinbaseValue room 0 0 outputs).length)).length ≤
      countBytes spaceForEn room := by
  have hmany := @length_packOutputs_le coinbaseValue room outputs hcost 0 0
  generalize (packOutputs coinbaseValue room 0 0 outputs).length = chosen at hmany ⊢
  by_cases hfew : outputCount spaceForEn chosen < 253
  · rw [length_varint_of_lt hfew]
    unfold countBytes
    split_ifs <;> omega
  · unfold outputCount at hfew
    have hlow : 250 ≤ chosen := by split_ifs at hfew <;> omega
    have hneed := hmany (by omega)
    have hcount : countBytes spaceForEn room = 3 := by
      unfold countBytes
      split_ifs at hfew ⊢ <;> omega
    rw [hcount]
    apply length_varint_le
    unfold outputCount
    split_ifs <;> omega

end Sizes

section Limits

variable {tags : CoinbaseTags} {tmpl : BlockTemplate} {job : CoinbaserJob} {type : Fin 6}
  {input : CoinbaseInput} {extranonce : List UInt8}

theorem coinbaseValue_pos (outputs : List DatumTxnOutput) :
    0 < (limitedJob tmpl job outputs).coinbaseValue := by
  apply Nat.pos_of_ne_zero
  intro hzero
  exact tmpl.coinbasevalue_ne (UInt64.toNat_inj.mp hzero)

/-- The pool has a script of its own while something is left for it. -/
theorem length_poolOutput_script {outputs : List DatumTxnOutput} {paid : Nat} :
    (poolOutput (limitedJob tmpl job outputs) paid).script.length =
      if (limitedJob tmpl job outputs).coinbaseValue > paid then job.poolAddrScript.length
      else 3 := by
  unfold poolOutput
  split <;> rfl

theorem length_emptyCoinbase (outputs : List DatumTxnOutput)
    (hpool : job.poolAddrScript.length ≤ 64) (hlen : extranonce.length = 12) :
    ((emptyCoinbase (limitedJob tmpl job outputs) input.bytes).txn extranonce).length =
      unpaidSize tmpl.toDatumTemplate job.poolAddrScript.length input.bytes.length 0 := by
  have hspace : hasSpaceForEn input.bytes.length 0 = decide (input.bytes.length ≤ 85) :=
    Bool.and_true _
  have hscript : (poolOutput (limitedJob tmpl job outputs)
      ((([] : List (Nat × DatumTxnOutput)).map fun entry => entry.2.valueSats).sum % 2 ^ 64)
        ).script.length = job.poolAddrScript.length := by
    rw [length_poolOutput_script]
    exact if_pos (coinbaseValue_pos outputs)
  have hsize := @length_txn_writeCoinbase (limitedJob tmpl job outputs) input.bytes extranonce []
    (input.bytes.length ≤ 85) false _ (fun _ => rfl) (List.forall_mem_nil _) hscript
    (by omega) hlen
  rw [List.length_nil, length_varint_outputCount_zero] at hsize
  rw [unpaidSize, hspace]
  exact hsize

/-- The scripts have room in a job. -/
def ScriptsInRange (outputs : List DatumTxnOutput) : Prop :=
  ∀ output ∈ outputs, 1 ≤ output.outputScript.length ∧ output.outputScript.length ≤ 64

/-- What is chosen for a type. -/
def chosenOutputs (tmpl : BlockTemplate) (job : CoinbaserJob) (input : List UInt8) (type : Fin 6)
    (outputs : List DatumTxnOutput) : List (Nat × DatumTxnOutput) :=
  packOutputs (limitedJob tmpl job outputs).coinbaseValue
    (fitToTemplate (coinbaseMaxSize type) (cbReqSz job input type) tmpl.toDatumTemplate) 0 0 outputs

/-- What the chosen outputs are worth. -/
def chosenTotal (tmpl : BlockTemplate) (job : CoinbaserJob) (input : List UInt8) (type : Fin 6)
    (outputs : List DatumTxnOutput) : Nat :=
  ((chosenOutputs tmpl job input type outputs).map fun entry => entry.2.valueSats).sum % 2 ^ 64

theorem length_typedCoinbase {outputs : List DatumTxnOutput}
    (hscripts : ScriptsInRange outputs) (hpool : job.poolAddrScript.length ≤ 64)
    (hlen : extranonce.length = 12) :
    ((typedCoinbase (limitedJob tmpl job outputs) input.bytes type).txn extranonce).length =
      coinbaseSize tmpl.toDatumTemplate
        (poolOutput (limitedJob tmpl job outputs)
          (chosenTotal tmpl job input.bytes type outputs)).script.length
        input.bytes.length (hasSpaceForEn input.bytes.length type)
        (varint (outputCount (hasSpaceForEn input.bytes.length type)
          (chosenOutputs tmpl job input.bytes type outputs).length)).length
        (totalCost ((chosenOutputs tmpl job input.bytes type outputs).map Prod.snd)) := by
  refine length_txn_writeCoinbase ?_ ?_ rfl ?_ hlen
  · intro hspace
    simp only [Bool.and_eq_true, decide_eq_true_eq] at hspace
    exact decide_eq_false hspace.2
  · intro entry hentry
    have hmem := (packOutputs_sublist _ _ _ _).subset (List.mem_map_of_mem hentry)
    exact (hscripts entry.2 hmem).2.trans_lt (by decide)
  · rw [length_poolOutput_script]
    split_ifs <;> omega

theorem coinbase_of_generate {outputs : List DatumTxnOutput} {set : CoinbaseSet} (type : Fin 6)
    (hinput : generateCoinbaseInput tags tmpl.toDatumTemplate job.carouselSupplierName =
      some input)
    (hset : generateCoinbaseTxns tags (limitedJob tmpl job outputs) = some set) :
    set.coinbase type =
      if outputs.isEmpty ∨ type = 0 then emptyCoinbase (limitedJob tmpl job outputs) input.bytes
      else typedCoinbase (limitedJob tmpl job outputs) input.bytes type := by
  unfold generateCoinbaseTxns at hset
  have hread : generateCoinbaseInput tags (limitedJob tmpl job outputs).blockTemplate
      (limitedJob tmpl job outputs).carouselSupplierName = some input := hinput
  rw [hread] at hset
  obtain rfl := Option.some.inj hset
  rfl

/-- The block around a coinbase of a job fits by its size. -/
theorem withinLimits_coinbase_iff {outputs : List DatumTxnOutput} {set : CoinbaseSet}
    {header : List UInt8}
    (hset : generateCoinbaseTxns tags (limitedJob tmpl job outputs) = some set)
    (hheader : header.length = blockHeaderSize tmpl.toDatumTemplate)
    (hlow : 8 ≤ ((set.coinbase type).txn extranonce).length)
    (hhigh : ((set.coinbase type).txn extranonce).length ≤ maxCoinbaseTxnSize) :
    (writtenBlock tmpl header ((set.coinbase type).txn extranonce)).WithinLimits
        tmpl.toDatumTemplate ↔
      BlockFits tmpl ((set.coinbase type).txn extranonce).length :=
  withinLimits_writtenBlock_iff hheader
    (alreadyWitnessed_of_cbStart (cbStart_isPrefix_coinbase hset type) extranonce) hlow hhigh

theorem le_coinbaseSize (tmpl : DatumTemplate) (poolScript input : Nat) (spaceForEn : Bool)
    (countBytes cost : Nat) :
    8 ≤ coinbaseSize tmpl poolScript input spaceForEn countBytes cost := by
  unfold coinbaseSize
  dsimp only
  omega

theorem cbReqSz_eq (job : CoinbaserJob) (input : List UInt8) (type : Fin 6) :
    cbReqSz job input type = 119 + job.poolAddrScript.length + input.length +
      if hasSpaceForEn input.length type then 0 else 10 := by
  unfold cbReqSz hasSpaceForEn
  by_cases htype : type = 2
  · rw [if_pos (.inl htype), if_neg (by simp [htype])]
  · by_cases hlong : input.length > 85
    · rw [if_pos (.inr hlong), if_neg (by simp [hlong])]
    · rw [if_neg (by omega), if_pos (by simpa [htype] using hlong)]

/-- The fixed bytes leave room in every type. -/
theorem cbReqSz_le {job : CoinbaserJob} (hpool : job.poolAddrScript.length ≤ 64)
    (hlong : input.bytes.length ≤ 279) (htype : type ≠ 0) :
    cbReqSz job input.bytes type ≤ coinbaseMaxSize type := by
  have hmax : ∀ type : Fin 6, type ≠ 0 → 500 ≤ coinbaseMaxSize type := by decide
  have hlow := hmax type htype
  unfold cbReqSz
  split_ifs <;> omega

theorem coinbaseMaxSize_le (type : Fin 6) : coinbaseMaxSize type ≤ 16000 := by
  have hmax : ∀ type : Fin 6, coinbaseMaxSize type ≤ 16000 := by decide
  exact hmax type

theorem RoomFor.need_le {tmpl : DatumTemplate} {fixed need : Nat}
    (h : RoomFor tmpl (coinbaseMaxSize type) fixed need) : need ≤ 16000 := by
  have hmax := h.max
  have hlimit := coinbaseMaxSize_le type
  omega

/-- The block around the coinbase that pays the pool alone. -/
theorem withinLimits_first_iff {outputs : List DatumTxnOutput} {set : CoinbaseSet}
    {header : List UInt8} (hpool : job.poolAddrScript.length ≤ 64)
    (hinput : generateCoinbaseInput tags tmpl.toDatumTemplate job.carouselSupplierName =
      some input)
    (hset : generateCoinbaseTxns tags (limitedJob tmpl job outputs) = some set)
    (hheader : header.length = blockHeaderSize tmpl.toDatumTemplate)
    (hlen : extranonce.length = 12) :
    (writtenBlock tmpl header ((set.coinbase 0).txn extranonce)).WithinLimits
        tmpl.toDatumTemplate ↔
      BlockFits tmpl
        (unpaidSize tmpl.toDatumTemplate job.poolAddrScript.length input.bytes.length 0) := by
  have hlong := length_generateCoinbaseInput_le hinput
  have hfirst := coinbase_of_generate 0 hinput hset
  rw [if_pos (.inr rfl)] at hfirst
  have hsize := @length_emptyCoinbase tmpl job input extranonce outputs hpool hlen
  rw [← hfirst] at hsize
  rw [withinLimits_coinbase_iff hset hheader (hsize ▸ le_coinbaseSize _ _ _ _ _ _)
    (hsize ▸ coinbaseSize_le hpool hlong (by decide) (by decide)), hsize]

/-- The size of a coinbase for a type, with its outputs. -/
theorem typed_le_of_room {outputs : List DatumTxnOutput} (hscripts : ScriptsInRange outputs)
    (hpool : job.poolAddrScript.length ≤ 64) (hlong : input.bytes.length ≤ 279)
    (htype : type ≠ 0) (hlen : extranonce.length = 12) :
    ((typedCoinbase (limitedJob tmpl job outputs) input.bytes type).txn extranonce).length ≤
        unpaidSize tmpl.toDatumTemplate job.poolAddrScript.length input.bytes.length type ∨
      ∃ cost, 10 ≤ cost ∧
        RoomFor tmpl.toDatumTemplate (coinbaseMaxSize type) (cbReqSz job input.bytes type) cost ∧
        ((typedCoinbase (limitedJob tmpl job outputs) input.bytes type).txn extranonce).length ≤
          paidSize tmpl.toDatumTemplate job.poolAddrScript.length input.bytes.length type cost := by
  have hfixed := cbReqSz_le hpool hlong htype
  have hnonneg : 0 ≤ fitToTemplate (coinbaseMaxSize type) (cbReqSz job input.bytes type)
      tmpl.toDatumTemplate := fitToTemplate_nonneg hfixed
  have hcosts (output : DatumTxnOutput) (houtput : output ∈ outputs) :
      10 ≤ outputCost output := by
    have hscript := (hscripts output houtput).1
    rw [outputCost]
    omega
  obtain ⟨room, hroom⟩ := Int.eq_ofNat_of_zero_le hnonneg
  have hchosen : chosenOutputs tmpl job input.bytes type outputs =
      packOutputs (limitedJob tmpl job outputs).coinbaseValue room 0 0 outputs := by
    rw [chosenOutputs, hroom]
  have hcost :
      (totalCost ((chosenOutputs tmpl job input.bytes type outputs).map Prod.snd) : Int) ≤
      room := by
    rw [hchosen]
    exact totalCost_packOutputs_le (Int.natCast_nonneg room) 0 0 outputs
  rw [length_typedCoinbase hscripts hpool hlen]
  by_cases hnone : chosenOutputs tmpl job input.bytes type outputs = []
  · refine .inl (le_of_eq ?_)
    have htotal : chosenTotal tmpl job input.bytes type outputs = 0 := by
      rw [chosenTotal, hnone]
      rfl
    rw [hnone, List.length_nil, length_varint_outputCount_zero, length_poolOutput_script, htotal,
      if_pos (coinbaseValue_pos outputs)]
    rfl
  · -- the largest coinbase is the one that fills the room
    obtain ⟨entry, hentry⟩ := List.exists_mem_of_ne_nil _ hnone
    have hfirst : 10 ≤ outputCost entry.2 :=
      hcosts entry.2 ((packOutputs_sublist _ _ _ _).subset (List.mem_map_of_mem hentry))
    have hle : outputCost entry.2 ≤
        totalCost ((chosenOutputs tmpl job input.bytes type outputs).map Prod.snd) :=
      List.le_sum_of_mem (List.mem_map_of_mem (List.mem_map_of_mem hentry))
    have hten : 10 ≤ room := by omega
    have hpos : 0 < room := by omega
    have hadmits := (le_fitToTemplate_iff hpos (coinbaseMaxSize_le type) hfixed).mp hroom.ge
    refine .inr ⟨room, hten, hadmits, coinbaseSize_mono ?_ ?_ (by omega)⟩
    · rw [length_poolOutput_script]
      split_ifs <;> omega
    · rw [hchosen]
      exact length_varint_outputCount_le hcosts hadmits.need_le

theorem countBytes_le (spaceForEn : Bool) (cost : Nat) : countBytes spaceForEn cost ≤ 3 := by
  unfold countBytes
  split_ifs <;> decide

/-- Where the reserves suffice, no outputs lead over the limits. -/
theorem respectsLimits_of_reservesSuffice (hpool : job.poolAddrScript.length ≤ 64)
    (hinput : generateCoinbaseInput tags tmpl.toDatumTemplate job.carouselSupplierName =
      some input)
    (htype : type ≠ 0)
    (h : ReservesSuffice tmpl job.poolAddrScript.length input.bytes.length type) :
    RespectsLimits tags tmpl job type := by
  have hlong := length_generateCoinbaseInput_le hinput
  intro outputs houtputs set hset header extranonce hheader hlen hfirst
  have htyped := coinbase_of_generate type hinput hset
  by_cases hempty : outputs.isEmpty
  · have hzero := coinbase_of_generate 0 hinput hset
    rw [if_pos (.inl hempty)] at hzero htyped
    rw [htyped, ← hzero]
    exact hfirst
  · rw [if_neg (not_or.mpr ⟨hempty, htype⟩)] at htyped
    have hlow : 8 ≤ ((set.coinbase type).txn extranonce).length := by
      rw [htyped, length_typedCoinbase houtputs.script_length hpool hlen]
      exact le_coinbaseSize _ _ _ _ _ _
    have hbound : ((set.coinbase type).txn extranonce).length ≤ maxCoinbaseTxnSize ∧
        BlockFits tmpl ((set.coinbase type).txn extranonce).length := by
      rw [htyped]
      rcases typed_le_of_room houtputs.script_length hpool hlong htype hlen with
        hle | ⟨cost, hten, hroom, hle⟩
      · exact ⟨hle.trans (coinbaseSize_le hpool hlong (by decide) (by decide)),
          h.unpaid.of_le hle⟩
      · have hcost := hroom.need_le
        rw [cbReqSz_eq] at hroom
        exact ⟨hle.trans (coinbaseSize_le (by omega) hlong (countBytes_le _ _) hcost),
          (h.paid cost hten hroom).of_le hle⟩
    exact (withinLimits_coinbase_iff hset hheader hlow hbound.1).mpr hbound.2

/-! ## Outputs that fill the room -/

theorem length_typedCoinbase_le {outputs : List DatumTxnOutput}
    (hscripts : ScriptsInRange outputs) (hpool : job.poolAddrScript.length ≤ 64)
    (hlong : input.bytes.length ≤ 279) (htype : type ≠ 0) (hlen : extranonce.length = 12) :
    ((typedCoinbase (limitedJob tmpl job outputs) input.bytes type).txn extranonce).length ≤
      maxCoinbaseTxnSize := by
  rcases typed_le_of_room hscripts hpool hlong htype hlen with hle | ⟨cost, -, hroom, hle⟩
  · exact hle.trans (coinbaseSize_le hpool hlong (by decide) (by decide))
  · exact hle.trans (coinbaseSize_le (by omega) hlong (countBytes_le _ _) hroom.need_le)

/-- The block with the coinbase of one type and one list of outputs keeps to the limits. -/
theorem blockFits_typedCoinbase (hpool : job.poolAddrScript.length ≤ 64)
    (hinput : generateCoinbaseInput tags tmpl.toDatumTemplate job.carouselSupplierName =
      some input)
    (htype : type ≠ 0) (h : RespectsLimits tags tmpl job type)
    (hfirst : BlockFits tmpl
      (unpaidSize tmpl.toDatumTemplate job.poolAddrScript.length input.bytes.length 0))
    {outputs : List DatumTxnOutput} (houtputs : AvailableOutputs outputs) (hne : outputs ≠ []) :
    BlockFits tmpl ((typedCoinbase (limitedJob tmpl job outputs) input.bytes type).txn
      zeroExtranonce).length := by
  have hlong := length_generateCoinbaseInput_le hinput
  have hlen : zeroExtranonce.length = 12 := rfl
  obtain ⟨set, hset⟩ :
      ∃ set, generateCoinbaseTxns tags (limitedJob tmpl job outputs) = some set :=
    ⟨_, congrArg _ hinput⟩
  have htyped := coinbase_of_generate type hinput hset
  have hsome : outputs.isEmpty ≠ true := by
    rw [Ne, List.isEmpty_iff]
    exact hne
  rw [if_neg (not_or.mpr ⟨hsome, htype⟩)] at htyped
  have hheader : (List.replicate (blockHeaderSize tmpl.toDatumTemplate) (0 : UInt8)).length =
      blockHeaderSize tmpl.toDatumTemplate := List.length_replicate
  have hpooled := (withinLimits_first_iff hpool hinput hset hheader hlen).mpr hfirst
  have hwithin := h outputs houtputs set hset _ zeroExtranonce hheader hlen hpooled
  rw [← htyped]
  refine (withinLimits_coinbase_iff hset hheader ?_ ?_).mp hwithin
  · rw [htyped, length_typedCoinbase houtputs.script_length hpool hlen]
    exact le_coinbaseSize _ _ _ _ _ _
  · rw [htyped]
    exact length_typedCoinbase_le houtputs.script_length hpool hlong htype hlen

theorem le_length_varint {n : Nat} (hn : 253 ≤ n) : 3 ≤ (varint n).length := by
  unfold varint
  split_ifs
  · omega
  · simp
  · simp
  · simp

theorem length_varint_pos (n : Nat) : 1 ≤ (varint n).length := by
  unfold varint
  split_ifs <;> simp

/-- Some outputs of so many bytes, all of them chosen, make the coinbase as large as
    it gets. -/
theorem exists_outputs_paidSize_le {cost : Nat} (hpool : job.poolAddrScript.length ≤ 64)
    (hcost : 10 ≤ cost)
    (hroom : (cost : Int) ≤ fitToTemplate (coinbaseMaxSize type) (cbReqSz job input.bytes type)
      tmpl.toDatumTemplate) :
    ∃ outputs, AvailableOutputs outputs ∧ outputs ≠ [] ∧ outputs.length ≤ 512 ∧
      paidSize tmpl.toDatumTemplate job.poolAddrScript.length input.bytes.length type cost ≤
        ((typedCoinbase (limitedJob tmpl job outputs) input.bytes type).txn
          zeroExtranonce).length := by
  have hvalue : tmpl.coinbasevalue.toNat < 2 ^ 64 := tmpl.coinbasevalue.toNat_lt
  have hpos : 0 < tmpl.coinbasevalue.toNat := @coinbaseValue_pos tmpl job []
  have hsize : cost ≤ 16000 := by
    have hlimit := coinbaseMaxSize_le type
    have hle := hroom.trans (fitToTemplate_le _ _ _)
    omega
  obtain ⟨small, hsmall, hfew, hcount⟩ : ∃ small, (small = 0 ∨ 10 * small + 30 ≤ cost) ∧
      small ≤ 250 ∧ ∀ chosen, small + 1 ≤ chosen →
        countBytes (hasSpaceForEn input.bytes.length type) cost ≤
          (varint (outputCount (hasSpaceForEn input.bytes.length type) chosen)).length := by
    unfold countBytes outputCount
    by_cases hmany : (if hasSpaceForEn input.bytes.length type then 2530 else 2520) ≤ cost
    · rw [if_pos hmany]
      split_ifs at hmany ⊢
      · exact ⟨250, .inr hmany, by decide, fun chosen hchosen => le_length_varint (by omega)⟩
      · exact ⟨249, .inr hmany, by decide, fun chosen hchosen => le_length_varint (by omega)⟩
    · rw [if_neg hmany]
      exact ⟨0, .inl rfl, by decide, fun chosen _ => length_varint_pos _⟩
  -- a script shorter than three bytes gives way where nothing is left for the pool
  obtain ⟨zeros, last, hzeros, hlast, htotal, hend, hlen, hlimit, hscripts⟩ :=
    exists_fillingOutputs
    (if job.poolAddrScript.length < 3 then tmpl.coinbasevalue.toNat else 0) hcost hsmall
  have hlastLe : last.valueSats ≤ tmpl.coinbasevalue.toNat := by
    rw [hlast]
    split_ifs <;> omega
  have hall : (chosenOutputs tmpl job input.bytes type (zeros ++ [last])).map Prod.snd =
      zeros ++ [last] :=
    packOutputs_zeros 0 hvalue hpos hzeros hlastLe (by omega) hend
  have hsum : outputsTotal (zeros ++ [last]) = last.valueSats := by
    have hnone : outputsTotal zeros = 0 := by
      rw [outputsTotal, List.sum_eq_zero_iff]
      intro value hmem
      obtain ⟨output, houtput, rfl⟩ := List.mem_map.mp hmem
      exact hzeros output houtput
    rw [outputsTotal_append, hnone, Nat.zero_add]
    rfl
  have houtputs : AvailableOutputs (zeros ++ [last]) :=
    ⟨hscripts, hsum ▸ hlastLe.trans_lt hvalue⟩
  refine ⟨zeros ++ [last], houtputs, by simp, ?_, ?_⟩
  · rw [List.length_append, List.length_singleton]
    omega
  have htotalValue : chosenTotal tmpl job input.bytes type (zeros ++ [last]) = last.valueSats := by
    rw [chosenTotal, sum_valueSats_snd, hall]
    show outputsTotal (zeros ++ [last]) % 2 ^ 64 = last.valueSats
    rw [hsum]
    exact Nat.mod_eq_of_lt (hlastLe.trans_lt hvalue)
  have hchosen : small + 1 ≤
      (chosenOutputs tmpl job input.bytes type (zeros ++ [last])).length := by
    have hcard := congrArg List.length hall
    rw [List.length_map, List.length_append, List.length_singleton] at hcard
    omega
  rw [length_typedCoinbase houtputs.script_length hpool rfl, hall, totalCost_append]
  refine coinbaseSize_mono ?_ (hcount _ hchosen) htotal.ge
  rw [length_poolOutput_script, htotalValue, hlast]
  show max job.poolAddrScript.length 3 ≤
    if tmpl.coinbasevalue.toNat > _ then job.poolAddrScript.length else 3
  split_ifs <;> omega

/-- Where there is no room for any output, none is chosen. -/
theorem exists_outputs_unpaidSize (hpool : job.poolAddrScript.length ≤ 64)
    (hroom : fitToTemplate (coinbaseMaxSize type) (cbReqSz job input.bytes type)
      tmpl.toDatumTemplate < 10) :
    ∃ outputs, AvailableOutputs outputs ∧ outputs ≠ [] ∧ outputs.length ≤ 512 ∧
      unpaidSize tmpl.toDatumTemplate job.poolAddrScript.length input.bytes.length type =
        ((typedCoinbase (limitedJob tmpl job outputs) input.bytes type).txn
          zeroExtranonce).length := by
  have houtputs : AvailableOutputs [fillingOutput 10 0] := by
    refine ⟨?_, by decide⟩
    intro output houtput
    rw [List.mem_singleton.mp houtput]
    exact ⟨by decide, by decide⟩
  have hnone : chosenOutputs tmpl job input.bytes type [fillingOutput 10 0] = [] := by
    have hcost : (outputCost (fillingOutput 10 0) : Int) = 10 := rfl
    simp only [chosenOutputs, packOutputs]
    rw [if_neg (by omega)]
  have htotal : chosenTotal tmpl job input.bytes type [fillingOutput 10 0] = 0 := by
    rw [chosenTotal, hnone]
    rfl
  refine ⟨_, houtputs, by simp, by decide, ?_⟩
  rw [length_typedCoinbase houtputs.script_length hpool rfl, hnone, List.length_nil,
    length_varint_outputCount_zero, length_poolOutput_script, htotal,
    if_pos (coinbaseValue_pos _)]
  rfl

/-- Where no outputs lead over the limits, the reserves suffice. -/
theorem reservesSuffice_of_respectsLimits (hpool : job.poolAddrScript.length ≤ 64)
    (hinput : generateCoinbaseInput tags tmpl.toDatumTemplate job.carouselSupplierName =
      some input)
    (htype : type ≠ 0) (h : RespectsLimits tags tmpl job type)
    (hfirst : BlockFits tmpl
      (unpaidSize tmpl.toDatumTemplate job.poolAddrScript.length input.bytes.length 0)) :
    ReservesSuffice tmpl job.poolAddrScript.length input.bytes.length type := by
  have hfixed := cbReqSz_le hpool (length_generateCoinbaseInput_le hinput) htype
  have hpaid : ∀ cost : Nat, 10 ≤ cost →
      (cost : Int) ≤ fitToTemplate (coinbaseMaxSize type) (cbReqSz job input.bytes type)
        tmpl.toDatumTemplate →
      BlockFits tmpl
        (paidSize tmpl.toDatumTemplate job.poolAddrScript.length input.bytes.length type cost) := by
    intro cost hcost hroom
    obtain ⟨outputs, houtputs, hne, -, hle⟩ := exists_outputs_paidSize_le hpool hcost hroom
    exact (blockFits_typedCoinbase hpool hinput htype h hfirst houtputs hne).of_le hle
  constructor
  · by_cases hroom : fitToTemplate (coinbaseMaxSize type) (cbReqSz job input.bytes type)
        tmpl.toDatumTemplate < 10
    · obtain ⟨outputs, houtputs, hne, -, hsize⟩ := exists_outputs_unpaidSize hpool hroom
      rw [hsize]
      exact blockFits_typedCoinbase hpool hinput htype h hfirst houtputs hne
    · refine (hpaid 10 le_rfl (Int.not_lt.mp hroom)).of_le ?_
      exact coinbaseSize_mono (Nat.le_max_left _ _) (by unfold countBytes; split_ifs <;> decide)
        (Nat.zero_le _)
  · intro cost hcost hroom
    rw [← cbReqSz_eq] at hroom
    exact hpaid cost hcost
      ((le_fitToTemplate_iff (by omega) (coinbaseMaxSize_le type) hfixed).mpr hroom)

end Limits

/-- The blocks of a type respect the limits exactly where the reserves suffice, or
    nothing is at stake: the type is the pool's alone, or not even its block fits. -/
theorem respectsLimits_iff {tags : CoinbaseTags} {tmpl : BlockTemplate} {job : CoinbaserJob}
    {input : CoinbaseInput} (hpool : job.poolAddrScript.length ≤ 64)
    (hinput : generateCoinbaseInput tags tmpl.toDatumTemplate job.carouselSupplierName =
      some input) (type : Fin 6) :
    RespectsLimits tags tmpl job type ↔
      type = 0 ∨
      ¬ BlockFits tmpl
        (unpaidSize tmpl.toDatumTemplate job.poolAddrScript.length input.bytes.length 0) ∨
      ReservesSuffice tmpl job.poolAddrScript.length input.bytes.length type := by
  by_cases htype : type = 0
  · subst htype
    refine iff_of_true ?_ (.inl rfl)
    intro outputs _ set _ header extranonce _ _ hfirst
    exact hfirst
  · constructor
    · intro h
      by_cases hfirst : BlockFits tmpl
          (unpaidSize tmpl.toDatumTemplate job.poolAddrScript.length input.bytes.length 0)
      · exact .inr (.inr (reservesSuffice_of_respectsLimits hpool hinput htype h hfirst))
      · exact .inr (.inl hfirst)
    · rintro (hzero | hover | hsuffice)
      · exact absurd hzero htype
      · intro outputs _ set hset header extranonce hheader hlen hfirst
        exact absurd ((withinLimits_first_iff hpool hinput hset hheader hlen).mp hfirst) hover
      · exact respectsLimits_of_reservesSuffice hpool hinput htype hsuffice

/-! ## Two templates -/

/-- The input of such jobs: the height, an empty tag and the unique ID. -/
theorem generateCoinbaseInput_quiet :
    generateCoinbaseInput plainTags quietTemplate.toDatumTemplate
      splitCoinbaserJob.carouselSupplierName = some weighingInput := by
  decide +kernel

/-- An empty template has room for any coinbase. -/
theorem quietTemplate_respectsLimits :
    RespectsLimits plainTags quietTemplate splitCoinbaserJob 4 := by
  have hpool : splitCoinbaserJob.poolAddrScript.length ≤ 64 := by decide
  refine (respectsLimits_iff hpool generateCoinbaseInput_quiet 4).mpr (.inr (.inr ⟨?_, ?_⟩))
  · rw [blockFits_iff]
    decide +kernel
  · intro cost _ hroom
    have hmax : 119 + splitCoinbaserJob.poolAddrScript.length + weighingInput.bytes.length +
        _ + cost ≤ 16000 := hroom.max
    have hsize : paidSize quietTemplate.toDatumTemplate splitCoinbaserJob.poolAddrScript.length
        weighingInput.bytes.length 4 cost ≤ 16960 :=
      coinbaseSize_le (by decide) (by decide) (countBytes_le _ _) (by omega)
    refine BlockFits.of_le ?_ hsize
    rw [blockFits_iff]
    decide +kernel

/-- A template whose transaction, without a witness, leaves a weight of 1312. -/
def fullTemplate : BlockTemplate :=
  { quietTemplate with
    txnTotalWeight := 3998688
    txnTotalSize := 999672
    txns := [{ txidBin := uniformHash 1, data := List.replicate 999672 0 }]
    txnTotalSize_lt := by decide
    txns_length_le := by decide
    txnTotalSize_eq := by
      rw [List.map_singleton, List.sum_singleton, List.length_replicate]
      rfl }

/-- The pool's coinbase takes all of that. The coinbaser counts a header of 80 bytes
    by weight, and finds room for a miner. -/
theorem not_fullTemplate_respectsLimits :
    ¬ RespectsLimits plainTags fullTemplate splitCoinbaserJob 4 := by
  intro hrespects
  have hpool : splitCoinbaserJob.poolAddrScript.length ≤ 64 := by decide
  have hinput : generateCoinbaseInput plainTags fullTemplate.toDatumTemplate
      splitCoinbaserJob.carouselSupplierName = some weighingInput := by
    decide +kernel
  have hfirst : BlockFits fullTemplate (unpaidSize fullTemplate.toDatumTemplate
      splitCoinbaserJob.poolAddrScript.length weighingInput.bytes.length 0) := by
    rw [blockFits_iff]
    decide +kernel
  have houtputs : AvailableOutputs splitCoinbaserJob.availableCoinbaseOutputs :=
    ⟨by decide, by decide⟩
  have hfits := blockFits_typedCoinbase hpool hinput (by decide) hrespects hfirst houtputs
    (by decide)
  have hsize : ((typedCoinbase (limitedJob fullTemplate splitCoinbaserJob
      splitCoinbaserJob.availableCoinbaseOutputs) weighingInput.bytes 4).txn
        zeroExtranonce).length = 185 := by
    decide +kernel
  rw [hsize, blockFits_iff] at hfits
  revert hfits
  decide +kernel

end ChirpGateway
