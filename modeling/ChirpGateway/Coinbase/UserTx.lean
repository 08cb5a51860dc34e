import ChirpGateway.Coinbase.Shared
import ChirpGateway.Coinbase.Size
import ChirpGateway.Stratum.Block

/-!
# The coinbase of one miner as a transaction

`datum_blake2b_build_user_coinbase` puts its own sequence and output count behind
the first half of the pool's coinbase. That half ends with the extranonce prefix,
inside the script or in an output (`datum_coinbaser.c:397-463`).
-/

namespace ChirpGateway

open Bytes Wire

section Build

variable (decode : List UInt8 → Option (List UInt8)) (config : LottoConfig) (job : StratumJob)

/-- The basis points the supplier is paid. -/
def userSupplierBps : Nat :=
  if (userSupplierScript decode config job).isSome then config.miningTemplateSupplierBps else 0

/-- `eff_fee_bps`. -/
def userFeeBps (feeBps : UInt16) : Nat :=
  if (userSupplierScript decode config job).isSome then config.miningTemplatePoolBps
  else feeBps.toNat

/-- No product of the coinbase value and basis points needs more than 64 bits. -/
@[mk_iff]
structure ProductsFit (feeBps : UInt16) : Prop where
  fee : job.blockTemplate.coinbasevalue.toNat * userFeeBps decode config job feeBps < 2 ^ 64
  supplier : job.blockTemplate.coinbasevalue.toNat * userSupplierBps decode config job < 2 ^ 64

/-- The outputs: the miner's, the supplier's, the fee and the witness
    commitment. -/
def userVout (userScript feeScript : List UInt8) (feeBps : UInt16) : List TxOut :=
  let values := userValues decode config job feeBps
  { value := values.user.toNat, script := userScript } ::
    (((userSupplierScript decode config job).toList.map fun script =>
      { value := values.supplier.toNat, script }) ++
    [{ value := values.fee.toNat, script := feeScript },
      { value := 0, script := userWitness job }])

/-- The coinbase is one transaction with one input and these outputs, which share
    the coinbase value exactly. -/
structure PaysUser (userScript feeScript : List UInt8) (feeBps : UInt16)
    (coinbase : StratumCoinbase) : Prop where
  transaction : ∃ tx txIn, readTx (coinbase.txn zeroExtranonce) = some tx ∧
    tx.inputs = [txIn] ∧
    tx.outputs = userVout decode config job userScript feeScript feeBps
  total : (userValues decode config job feeBps).user.toNat +
      (userValues decode config job feeBps).supplier.toNat +
      (userValues decode config job feeBps).fee.toNat = job.blockTemplate.coinbasevalue.toNat
  supplier_exact : (userValues decode config job feeBps).supplier.toNat =
    job.blockTemplate.coinbasevalue.toNat * userSupplierBps decode config job / 10000
  fee_exact : (userValues decode config job feeBps).fee.toNat =
    job.blockTemplate.coinbasevalue.toNat * userFeeBps decode config job feeBps / 10000

end Build

/-- The outputs a second half of a coinbase holds, behind the sequence. -/
def coinb2Outputs (coinb2 : List UInt8) : Option (List TxOut) := do
  let (_, rest) ← readBytes 4 coinb2
  let (count, rest) ← readVarint rest
  let (outputs, _) ← readMany readOutput count rest
  return outputs

/-! ## The values -/

section Values

variable {decode : List UInt8 → Option (List UInt8)} {config : LottoConfig} {job : StratumJob}
variable {feeBps : UInt16}

theorem toNat_bpsOf (total : UInt64) {bps : Nat} (hbps : bps < 10000) :
    (bpsOf total bps).toNat = total.toNat * bps % 2 ^ 64 / 10000 := by
  have hword : (UInt64.ofNat bps).toNat = bps :=
    UInt64.toNat_ofNat_of_lt' (Nat.lt_trans hbps (by decide))
  have hbound : (10000 : UInt64).toNat = 10000 := rfl
  rw [bpsOf, UInt64.toNat_div, UInt64.toNat_mul, hword, hbound]

/-- A product that wraps around loses more than the division does. -/
theorem toNat_bpsOf_eq_iff (total : UInt64) {bps : Nat} (hbps : bps < 10000) :
    (bpsOf total bps).toNat = total.toNat * bps / 10000 ↔ total.toNat * bps < 2 ^ 64 := by
  rw [toNat_bpsOf total hbps]
  generalize total.toNat * bps = product
  omega

theorem toNat_bpsOf_le (total : UInt64) {bps : Nat} (hbps : bps < 10000) :
    (bpsOf total bps).toNat ≤ total.toNat * bps / 10000 := by
  rw [toNat_bpsOf total hbps]
  exact Nat.div_le_div_right (Nat.mod_le _ _)

theorem userBps_lt (hfee : feeBps.toNat < 10000) :
    userSupplierBps decode config job + userFeeBps decode config job feeBps < 10000 := by
  have hconfig := config.share_left
  rw [userSupplierBps, userFeeBps]
  split <;> omega

theorem userValues_eq (decode : List UInt8 → Option (List UInt8)) (config : LottoConfig)
    (job : StratumJob) (feeBps : UInt16) :
    (userValues decode config job feeBps).supplier =
        bpsOf job.blockTemplate.coinbasevalue (userSupplierBps decode config job) ∧
      (userValues decode config job feeBps).fee =
        bpsOf job.blockTemplate.coinbasevalue (userFeeBps decode config job feeBps) := by
  have hzero : bpsOf job.blockTemplate.coinbasevalue 0 = 0 := by
    rw [← UInt64.toNat_inj, toNat_bpsOf _ (by decide), Nat.mul_zero]
    rfl
  refine ⟨?_, rfl⟩
  simp only [userValues, userSupplierBps]
  split
  · rfl
  · exact hzero.symm

/-- The three values share the coinbase value, and the miner has some of it. -/
theorem userValues_total (decode : List UInt8 → Option (List UInt8)) (config : LottoConfig)
    (job : StratumJob) (hfee : feeBps.toNat < 10000) :
    (userValues decode config job feeBps).user.toNat +
        (userValues decode config job feeBps).supplier.toNat +
        (userValues decode config job feeBps).fee.toNat =
      job.blockTemplate.coinbasevalue.toNat ∧
    0 < (userValues decode config job feeBps).user.toNat := by
  obtain ⟨hsupplier, hfeeValue⟩ := userValues_eq decode config job feeBps
  have hbps : userSupplierBps decode config job + userFeeBps decode config job feeBps < 10000 :=
    userBps_lt hfee
  have hpositive : 0 < job.blockTemplate.coinbasevalue.toNat := by
    apply Nat.pos_of_ne_zero
    intro hzero
    exact job.blockTemplate.coinbasevalue_ne (UInt64.toNat_inj.mp hzero)
  have huser : (userValues decode config job feeBps).user =
      job.blockTemplate.coinbasevalue - (userValues decode config job feeBps).fee -
        (userValues decode config job feeBps).supplier := rfl
  have hsupplierLe := toNat_bpsOf_le job.blockTemplate.coinbasevalue
    (show userSupplierBps decode config job < 10000 by omega)
  have hfeeLe := toNat_bpsOf_le job.blockTemplate.coinbasevalue
    (show userFeeBps decode config job feeBps < 10000 by omega)
  rw [← hsupplier] at hsupplierLe
  rw [← hfeeValue] at hfeeLe
  generalize userSupplierBps decode config job = supplierBps at hbps hsupplierLe
  generalize userFeeBps decode config job feeBps = effFeeBps at hbps hfeeLe
  generalize (userValues decode config job feeBps).supplier = supplier at huser hsupplierLe ⊢
  generalize (userValues decode config job feeBps).fee = fee at huser hfeeLe ⊢
  generalize job.blockTemplate.coinbasevalue = total at *
  -- the floors are below the value's parts of the basis points
  have hfloors : supplier.toNat + fee.toNat < total.toNat := by
    have hshare : total.toNat * supplierBps / 10000 + total.toNat * effFeeBps / 10000 ≤
        total.toNat * (supplierBps + effFeeBps) / 10000 := by
      rw [Nat.mul_add]
      exact Nat.div_add_div_le_add_div
    have hless : total.toNat * (supplierBps + effFeeBps) / 10000 < total.toNat := by
      apply Nat.div_lt_of_lt_mul
      rw [Nat.mul_comm]
      exact Nat.mul_lt_mul_of_pos_right hbps hpositive
    omega
  have hfeeSub : (total - fee).toNat = total.toNat - fee.toNat :=
    UInt64.toNat_sub_of_le _ _ (UInt64.le_iff_toNat_le.mpr (by omega))
  have hsub : (total - fee - supplier).toNat = total.toNat - fee.toNat - supplier.toNat := by
    rw [UInt64.toNat_sub_of_le _ _ (UInt64.le_iff_toNat_le.mpr (by omega)), hfeeSub]
  rw [huser, hsub]
  omega

end Values

/-! ## The bytes -/

section Layout

variable {decode : List UInt8 → Option (List UInt8)} {config : LottoConfig} {job : StratumJob}
variable {coinbaserJob : CoinbaserJob} {input userScript feeScript : List UInt8}
variable {feeBps : UInt16} {coinbase : StratumCoinbase}

/-- What a coinbase that is built consists of. -/
theorem buildUserCoinbase_eq_some
    (h : buildUserCoinbase decode config job userScript feeScript feeBps = some coinbase) :
    (0 < userScript.length ∧ userScript.length ≤ 64) ∧
      (0 < feeScript.length ∧ feeScript.length ≤ 64) ∧
      coinbase = {
        coinb1Bin := (job.coinbase 0).coinb1Bin
        coinb2Bin := userCoinb2 decode config job userScript feeScript feeBps } := by
  simp only [buildUserCoinbase] at h
  split at h
  · cases h
  · next hscripts =>
    split at h
    · cases h
    · split at h
      · cases h
      · cases h
        simp only [Bool.or_eq_true, Bool.not_eq_true', not_or, Bool.not_eq_false,
          isScript_iff] at hscripts
        exact ⟨hscripts.1, hscripts.2, rfl⟩

theorem userWitnessLength_eq (job : StratumJob) :
    userWitnessLength job = job.blockTemplate.defaultWitnessCommitment.length / 2 := by
  obtain ⟨-, hmax⟩ := job.blockTemplate.witnessCommitment_length
  simp only [userWitnessLength]
  rw [if_neg (by omega)]

theorem length_userWitness (job : StratumJob) :
    (userWitness job).length = userWitnessLength job := by
  rw [userWitness, List.length_take, Hex.length_decode, userWitnessLength_eq]
  omega

/-- The length of a short script is its count. -/
theorem userTxOut_eq {value : UInt64} {script : List UInt8} (hlen : script.length ≤ 64) :
    userTxOut value script = TxOut.encode { value := value.toNat, script } := by
  have hlt : script.length < 0xfd := by omega
  rw [userTxOut, TxOut.encode, varint_of_lt hlt, List.append_assoc, List.singleton_append]

theorem supplierScript_length {script : List UInt8}
    (h : userSupplierScript decode config job = some script) :
    0 < script.length ∧ script.length ≤ 64 := by
  simp only [userSupplierScript] at h
  split at h
  · obtain ⟨-, hscript⟩ := Option.filter_eq_some_iff.mp h
    exact isScript_iff.mp hscript
  · cases h

/-- The second half is the sequence, the counted outputs and the lock time. -/
theorem userCoinb2_eq (decode : List UInt8 → Option (List UInt8)) (config : LottoConfig)
    (job : StratumJob) (feeBps : UInt16) (huser : userScript.length ≤ 64)
    (hfee : feeScript.length ≤ 64) :
    userCoinb2 decode config job userScript feeScript feeBps =
      coinbaseSequence ++
        (varint (userVout decode config job userScript feeScript feeBps).length ++
          ((userVout decode config job userScript feeScript feeBps).flatMap TxOut.encode ++
            List.replicate 4 0)) := by
  obtain ⟨hmin, hmax⟩ := job.blockTemplate.witnessCommitment_length
  have hwitnessed : 0 < userWitnessLength job := by
    rw [userWitnessLength_eq]
    omega
  have hwitness : TxOut.encode { value := 0, script := userWitness job } =
      List.replicate 8 0 ++ (UInt8.ofNat (userWitnessLength job) :: userWitness job) := by
    have hlt : userWitnessLength job < 0xfd := by
      rw [userWitnessLength_eq]
      omega
    rw [TxOut.encode, leBytes_zero, length_userWitness, varint_of_lt hlt, List.append_assoc,
      List.singleton_append]
  cases hsupplier : userSupplierScript decode config job with
  | none =>
    simp only [userCoinb2, userVout, hsupplier, hwitnessed, if_true, userTxOut_eq huser,
      userTxOut_eq hfee, Option.toList_none, List.map_nil, List.nil_append, List.flatMap_cons,
      List.flatMap_nil, hwitness, List.append_assoc, List.append_nil]
    rfl
  | some script =>
    obtain ⟨-, hlen⟩ := supplierScript_length hsupplier
    simp only [userCoinb2, userVout, hsupplier, hwitnessed, if_true, userTxOut_eq huser,
      userTxOut_eq hfee, userTxOut_eq hlen, Option.toList_some, List.map_cons, List.map_nil,
      List.cons_append, List.nil_append, List.flatMap_cons, List.flatMap_nil, hwitness,
      List.append_assoc, List.append_nil]
    rfl

theorem bounds_of_mem_userVout (huser : userScript.length ≤ 64) (hfee : feeScript.length ≤ 64)
    {output : TxOut} (houtput : output ∈ userVout decode config job userScript feeScript feeBps) :
    output.value < 2 ^ 64 ∧ output.script.length ≤ 64 := by
  simp only [userVout, List.mem_cons, List.mem_append, List.mem_map, Option.mem_toList,
    List.not_mem_nil, or_false] at houtput
  rcases houtput with rfl | ⟨script, hscript, rfl⟩ | rfl | rfl
  · exact ⟨UInt64.toNat_lt _, huser⟩
  · exact ⟨UInt64.toNat_lt _, (supplierScript_length hscript).2⟩
  · exact ⟨UInt64.toNat_lt _, hfee⟩
  · obtain ⟨-, hmax⟩ := job.blockTemplate.witnessCommitment_length
    refine ⟨Nat.two_pow_pos 64, ?_⟩
    show (userWitness job).length ≤ 64
    rw [length_userWitness, userWitnessLength_eq]
    omega

theorem userVout_fits (huser : userScript.length ≤ 64) (hfee : feeScript.length ≤ 64)
    {output : TxOut}
    (houtput : output ∈ userVout decode config job userScript feeScript feeBps) :
    output.Fits := by
  obtain ⟨hvalue, hscript⟩ := bounds_of_mem_userVout huser hfee houtput
  exact ⟨hvalue, Nat.lt_of_le_of_lt hscript (by decide)⟩

theorem length_userVout_le :
    (userVout decode config job userScript feeScript feeBps).length ≤ 4 := by
  cases hsupplier : userSupplierScript decode config job <;> simp [userVout, hsupplier]

/-- The second half holds these outputs. -/
theorem coinb2Outputs_userCoinb2 (huser : userScript.length ≤ 64)
    (hfee : feeScript.length ≤ 64) :
    coinb2Outputs (userCoinb2 decode config job userScript feeScript feeBps) =
      some (userVout decode config job userScript feeScript feeBps) := by
  have hcount : (userVout decode config job userScript feeScript feeBps).length < 2 ^ 64 :=
    Nat.lt_of_le_of_lt length_userVout_le (by decide)
  have hfits : ∀ output ∈ userVout decode config job userScript feeScript feeBps, output.Fits :=
    fun _ houtput => userVout_fits huser hfee houtput
  have houtputs := readMany_flatMap (fun output houtput => readOutput_encode (hfits output houtput))
    (List.replicate 4 0)
  simp only [coinb2Outputs, userCoinb2_eq decode config job feeBps huser hfee,
    readBytes_append (show coinbaseSequence.length = 4 from rfl), readVarint_varint hcount,
    houtputs, Option.bind_eq_bind, Option.bind_some, Option.pure_def]

/-- It is far from the end of its buffer. -/
theorem length_userCoinb2_le (huser : userScript.length ≤ 64) (hfee : feeScript.length ≤ 64) :
    (userCoinb2 decode config job userScript feeScript feeBps).length ≤ 301 := by
  have hcount : (userVout decode config job userScript feeScript feeBps).length ≤ 4 :=
    length_userVout_le
  have heach : ∀ size ∈ (userVout decode config job userScript feeScript feeBps).map
      fun output => output.encode.length, size ≤ 73 := by
    intro size hsize
    obtain ⟨output, houtput, rfl⟩ := List.mem_map.mp hsize
    obtain ⟨-, hscript⟩ := bounds_of_mem_userVout huser hfee houtput
    rw [length_encode_txOut (by omega)]
    omega
  have hsum := List.sum_le_card_nsmul _ _ heach
  rw [List.length_map, Nat.nsmul_eq_mul] at hsum
  rw [userCoinb2_eq decode config job feeBps huser hfee]
  simp only [List.length_append, List.length_flatMap, List.length_replicate,
    length_varint_of_lt (Nat.lt_of_le_of_lt hcount (by decide))]
  have hsequence : coinbaseSequence.length = 4 := rfl
  omega

/-- The pool's first half has room for every script of the input. -/
theorem length_coinb1Bin_emptyCoinbase_le (job : CoinbaserJob) {input : List UInt8}
    (hinput : input.length ≤ 279) : (emptyCoinbase job input).coinb1Bin.length ≤ 341 := by
  have hstart : cbStart.length = 41 := rfl
  have hsequence : coinbaseSequence.length = 4 := rfl
  have hshort : (varint (input.length + 15)).length ≤ 3 := length_varint_le (by omega)
  have hlong : (varint input.length).length ≤ 3 := length_varint_le (by omega)
  have hthree : (varint 3).length = 1 := rfl
  have hprefix : (enPrefixBytes job.enPrefix).length = 2 := rfl
  simp only [emptyCoinbase, writeCoinbase, coinb1Base]
  split
  · simp only [List.length_append, List.length_cons]
    omega
  · simp only [extranonceFront, List.length_append, List.length_cons, List.length_nil,
      List.length_replicate, List.flatMap_nil, Bool.false_eq_true, if_false, Nat.zero_add]
    omega

/-- A miner whose address has a script gets a coinbase. -/
theorem lottoCoinbase_eq_some {tags : CoinbaseTags} {scriptInput : CoinbaseInput}
    (hmode : config.miningBlake2bPersonalLotto = true)
    (hinput : generateCoinbaseInput tags coinbaserJob.blockTemplate
      coinbaserJob.carouselSupplierName = some scriptInput)
    (hpool : job.coinbase 0 = emptyCoinbase coinbaserJob scriptInput.bytes)
    (hfee : decode blake2bLottoFeeAddr = some feeScript) (hfeeScript : isScript feeScript = true)
    (huser : isScript userScript = true) :
    lottoCoinbase decode config job (some userScript) = some {
      coinb1Bin := (job.coinbase 0).coinb1Bin
      coinb2Bin := userCoinb2 decode config job userScript feeScript blake2bLottoFeeBps } := by
  obtain ⟨hfeePos, hfeeLen⟩ := isScript_iff.mp hfeeScript
  have hcoinb2 :
      (userCoinb2 decode config job userScript feeScript blake2bLottoFeeBps).length ≤ 301 :=
    length_userCoinb2_le (isScript_iff.mp huser).2 hfeeLen
  have hcoinb1 := length_coinb1Bin_emptyCoinbase_le coinbaserJob
    (length_generateCoinbaseInput_le hinput)
  have hstart := job.coinbase_start.length_le
  have hcbStart : cbStart.length = 41 := rfl
  rw [← hpool] at hcoinb1
  rw [lottoCoinbase, if_pos hmode, Option.bind_some, hfee, Option.bind_some,
    if_neg (by omega), buildUserCoinbase]
  simp only [huser, hfeeScript, Bool.not_true, Bool.or_self, Bool.false_eq_true, if_false]
  rw [if_neg, if_neg (by omega)]
  simp only [Bool.or_eq_true, decide_eq_true_eq]
  omega

/-- Where the script has the space, both halves are one transaction. -/
theorem txn_user_of_space (hpool : job.coinbase 0 = emptyCoinbase coinbaserJob input)
    (hspace : input.length ≤ 85)
    (hbuild : buildUserCoinbase decode config job userScript feeScript feeBps = some coinbase) :
    readTx (coinbase.txn zeroExtranonce) = some {
      version := [1, 0, 0, 0]
      inputs := [coinbaseTxIn coinbaserJob input true zeroExtranonce]
      outputs := userVout decode config job userScript feeScript feeBps
      lockTime := List.replicate 4 0 } := by
  obtain ⟨⟨-, huser⟩, ⟨-, hfee⟩, rfl⟩ := buildUserCoinbase_eq_some hbuild
  have hscript : (0x0e :: (enPrefixBytes coinbaserJob.enPrefix ++ zeroExtranonce)).length = 15 :=
    rfl
  have hcoinb1 : (emptyCoinbase coinbaserJob input).coinb1Bin =
      cbStart ++ varint (input.length + 15) ++ input ++
        0x0e :: enPrefixBytes coinbaserJob.enPrefix := by
    simp only [emptyCoinbase, writeCoinbase, coinb1Base, hspace, decide_true, if_true]
  have hlen : (coinbaseTxIn coinbaserJob input true zeroExtranonce).script.length =
      input.length + 15 := by
    simp only [coinbaseTxIn, if_true, List.length_append, hscript]
  rw [← readTx_encode]
  · apply congrArg
    simp only [StratumCoinbase.txn, hpool, hcoinb1,
      userCoinb2_eq decode config job feeBps huser hfee,
      Tx.encode, TxIn.encode, hlen, cbStart_eq, List.length_cons, List.length_nil,
      List.flatMap_cons, List.flatMap_nil, List.append_nil, List.append_assoc, List.cons_append,
      List.nil_append]
    simp only [coinbaseTxIn, if_true, List.append_assoc, List.cons_append]
  · have houtputs : (userVout decode config job userScript feeScript feeBps).length ≤ 4 := by
      cases hsupplier : userSupplierScript decode config job <;> simp [userVout, hsupplier]
    refine ⟨rfl, show 1 < 2 ^ 64 by decide, ?_, Nat.lt_of_le_of_lt houtputs (by decide),
      ?_, rfl⟩
    · intro txIn htxIn
      rw [List.mem_singleton.mp htxIn]
      refine ⟨rfl, ?_, rfl⟩
      rw [hlen]
      omega
    · intro output houtput
      exact userVout_fits huser hfee houtput

/-- Where it has not, the pool's half has the sequence, the output count and the
    start of an output already: the first output is the extranonce's. -/
theorem outputs_of_no_space (hpool : job.coinbase 0 = emptyCoinbase coinbaserJob input)
    (hinput : input.length < 2 ^ 64) (hspace : ¬ input.length ≤ 85)
    (hbuild : buildUserCoinbase decode config job userScript feeScript feeBps = some coinbase)
    {tx : Tx} (hread : readTx (coinbase.txn zeroExtranonce) = some tx) :
    ∃ others, tx.outputs = extranonceOutput coinbaserJob.enPrefix zeroExtranonce :: others := by
  obtain ⟨-, -, rfl⟩ := buildUserCoinbase_eq_some hbuild
  have hcoinb1 : (emptyCoinbase coinbaserJob input).coinb1Bin =
      cbStart ++ varint input.length ++ input ++ coinbaseSequence ++ varint 3 ++
        extranonceFront coinbaserJob.enPrefix := by
    simp only [emptyCoinbase, writeCoinbase, coinb1Base, hspace, decide_false,
      Bool.false_eq_true, if_false, List.flatMap_nil, List.append_nil, List.length_nil]
  have hbytes : StratumCoinbase.txn
      { coinb1Bin := (job.coinbase 0).coinb1Bin
        coinb2Bin := userCoinb2 decode config job userScript feeScript feeBps } zeroExtranonce =
      [1, 0, 0, 0] ++ (varint 1 ++
        ((coinbaseTxIn coinbaserJob input false zeroExtranonce).encode ++ (varint 3 ++
          ((extranonceOutput coinbaserJob.enPrefix zeroExtranonce).encode ++
            userCoinb2 decode config job userScript feeScript feeBps)))) := by
    simp only [StratumCoinbase.txn, hpool, hcoinb1, TxIn.encode, coinbaseTxIn, Bool.false_eq_true,
      if_false, cbStart_eq, List.append_assoc, List.cons_append, List.nil_append,
      ← extranonceFront_append (show zeroExtranonce.length = 12 from rfl)]
  rw [hbytes] at hread
  exact outputs_of_readTx rfl ⟨rfl, hinput, rfl⟩ (by decide) (extranonceOutput_fits rfl) _ hread

/-- The miner's output has a value and the extranonce's has none. -/
theorem not_paysUser_of_no_space (hpool : job.coinbase 0 = emptyCoinbase coinbaserJob input)
    (hinput : input.length < 2 ^ 64) (hspace : ¬ input.length ≤ 85) (hfee : feeBps.toNat < 10000)
    (hbuild : buildUserCoinbase decode config job userScript feeScript feeBps = some coinbase) :
    ¬ PaysUser decode config job userScript feeScript feeBps coinbase := by
  rintro ⟨⟨tx, txIn, hread, -, houtputs⟩, -, -, -⟩
  obtain ⟨others, hfirst⟩ := outputs_of_no_space hpool hinput hspace hbuild hread
  rw [houtputs] at hfirst
  have hzero : (userValues decode config job feeBps).user.toNat = 0 :=
    congrArg TxOut.value (List.cons.inj hfirst).1
  obtain ⟨-, hpositive⟩ := userValues_total decode config job hfee
  omega

/-- The coinbase of a miner pays as it should exactly where the script of the
    pool's coinbase has the space for the extranonce, and no product of the value
    and basis points wraps around. -/
theorem paysUser_iff {tags : CoinbaseTags} {scriptInput : CoinbaseInput}
    (hinput : generateCoinbaseInput tags coinbaserJob.blockTemplate
      coinbaserJob.carouselSupplierName = some scriptInput)
    (hpool : job.coinbase 0 = emptyCoinbase coinbaserJob scriptInput.bytes)
    (hfee : feeBps.toNat < 10000)
    (hbuild : buildUserCoinbase decode config job userScript feeScript feeBps = some coinbase) :
    PaysUser decode config job userScript feeScript feeBps coinbase ↔
      scriptInput.bytes.length ≤ 85 ∧ ProductsFit decode config job feeBps := by
  obtain ⟨htotal, -⟩ := userValues_total decode config job hfee
  obtain ⟨hsupplier, hfeeValue⟩ := userValues_eq decode config job feeBps
  have hbps : userSupplierBps decode config job + userFeeBps decode config job feeBps < 10000 :=
    userBps_lt hfee
  have hsupplierIff := toNat_bpsOf_eq_iff job.blockTemplate.coinbasevalue
    (show userSupplierBps decode config job < 10000 by omega)
  have hfeeIff := toNat_bpsOf_eq_iff job.blockTemplate.coinbasevalue
    (show userFeeBps decode config job feeBps < 10000 by omega)
  rw [← hsupplier] at hsupplierIff
  rw [← hfeeValue] at hfeeIff
  constructor
  · intro hpays
    refine ⟨?_, hfeeIff.mp hpays.fee_exact, hsupplierIff.mp hpays.supplier_exact⟩
    by_contra hspace
    have hlen := length_generateCoinbaseInput_le hinput
    exact not_paysUser_of_no_space hpool (by omega) hspace hfee hbuild hpays
  · rintro ⟨hspace, hproducts⟩
    exact ⟨⟨_, _, txn_user_of_space hpool hspace hbuild, rfl, rfl⟩, htotal,
      hsupplierIff.mpr hproducts.supplier, hfeeIff.mpr hproducts.fee⟩

end Layout

/-! ## Two scripts -/

/-- What a job without outputs is made from. -/
def soloCoinbaserJob : CoinbaserJob := { splitCoinbaserJob with availableCoinbaseOutputs := [] }

theorem cbStart_isFront_emptyCoinbase (job : CoinbaserJob) (input : List UInt8) :
    cbStart <+: (emptyCoinbase job input).coinb1Bin := by
  simp only [emptyCoinbase, writeCoinbase, coinb1Base]
  split <;> simp only [List.append_assoc] <;> exact List.prefix_append _ _

/-- The job, with this coinbase script. -/
def soloJob (input : List UInt8) : StratumJob where
  jobId := ascii "6553f10000c0de"
  blockTemplate := quietTemplate
  blockTarget := uniformHash 0
  coinbase := fun _ => emptyCoinbase soloCoinbaserJob input
  subsidyOnlyCoinbase := emptyCoinbase soloCoinbaserJob input
  blake2bCoinbaseIndex := 0
  carouselSupplier := []
  tsms := 1700000000000
  isStalePrevblock := false
  isBlake2b := splitJob.isBlake2b
  coinbase_start := cbStart_isFront_emptyCoinbase _ _
  coinbase_unmarked := fun _ => alreadyWitnessed_of_cbStart (cbStart_isFront_emptyCoinbase _ _) _
  subsidyOnly_unmarked := alreadyWitnessed_of_cbStart (cbStart_isFront_emptyCoinbase _ _) _

/-- A miner of its own, without a supplier. -/
def soloConfig : LottoConfig where
  miningBlake2bPersonalLotto := true
  miningBlake2bTemplate := false
  miningBlake2bTemplateCarousel := false
  miningTemplateSupplierAddress := []
  miningTemplateSupplierBps := 0
  miningTemplatePoolBps := 90
  share_left := poolOnlyConfig.share_left

/-- Tags of 60 and of 28 bytes, which the settings allow. -/
def longTags : CoinbaseTags where
  miningCoinbaseTagPrimary := List.replicate 60 97
  miningCoinbaseTagSecondary := List.replicate 28 98
  coinbaseUniqueId := 0
  primeId := 0
  primary_length := by decide
  secondary_length := by decide

def soloScript : List UInt8 := 0x00 :: 0x14 :: List.replicate 20 3

/-- The miner's coinbase for a script. -/
def soloCoinbase (input : List UInt8) : Option StratumCoinbase :=
  buildUserCoinbase (fun _ => none) soloConfig (soloJob input) soloScript poolScript
    blake2bLottoFeeBps

/-- Without tags the script has the space. -/
theorem plainTags_paysUser : ∃ coinbase, soloCoinbase weighingInput.bytes = some coinbase ∧
    PaysUser (fun _ => none) soloConfig (soloJob weighingInput.bytes) soloScript poolScript
      blake2bLottoFeeBps coinbase := by
  have hinput : generateCoinbaseInput plainTags soloCoinbaserJob.blockTemplate
      soloCoinbaserJob.carouselSupplierName = some weighingInput := by decide +kernel
  have hbuilt : (soloCoinbase weighingInput.bytes).isSome = true := by decide +kernel
  obtain ⟨coinbase, hbuild⟩ := Option.isSome_iff_exists.mp hbuilt
  refine ⟨coinbase, hbuild,
    (paysUser_iff hinput rfl (by decide) hbuild).mpr ⟨by decide +kernel, ?_⟩⟩
  rw [productsFit_iff]
  decide +kernel

/-- With long tags it has not, and no transaction with the miner's outputs is
    read. -/
theorem longTags_not_paysUser :
    ∃ input coinbase, generateCoinbaseInput longTags soloCoinbaserJob.blockTemplate [] =
      some input ∧
      soloCoinbase input.bytes = some coinbase ∧
      ¬ PaysUser (fun _ => none) soloConfig (soloJob input.bytes) soloScript poolScript
        blake2bLottoFeeBps coinbase := by
  have hlong : (generateCoinbaseInput longTags soloCoinbaserJob.blockTemplate []).map (fun input =>
      decide (input.bytes.length = 96) && (soloCoinbase input.bytes).isSome) = some true := by
    decide +kernel
  obtain ⟨input, hinput, hfacts⟩ := Option.map_eq_some_iff.mp hlong
  rw [Bool.and_eq_true, decide_eq_true_eq] at hfacts
  obtain ⟨hlen, hbuilt⟩ := hfacts
  obtain ⟨coinbase, hbuild⟩ := Option.isSome_iff_exists.mp hbuilt
  exact ⟨input, coinbase, hinput, hbuild,
    not_paysUser_of_no_space rfl (by omega) (by omega) (by decide) hbuild⟩

end ChirpGateway
