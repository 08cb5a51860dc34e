import ChirpGateway.Coinbase.ScriptSig
import ChirpGateway.Coinbase.UserCoinbase
import ChirpGateway.Stratum.BlockLimits

/-!
# The coinbase of a block as text

`datum_stratum_coinbase_for_block_hex` (`datum_stratum.c:2462-2504`), character by
character, into the buffer that `assembleBlockAndSubmit` has for it
(`datum_stratum.c:2522`, `2579-2589`), and the coinbases that come there.
-/

namespace ChirpGateway

open Bytes Wire

/-! ## Writing -/

/-- The characters in `out`, and the counter `o`. -/
structure HexWriter where
  out : List UInt8
  o : Nat

namespace HexWriter

/-- `uchar_to_hex`, and the counting behind it. -/
def put (writer : HexWriter) (byte : UInt8) : HexWriter where
  out := writer.out ++ Hex.encodeByte byte
  o := writer.o + 2

/-- A loop over some bytes. -/
def putAll (writer : HexWriter) (bytes : List UInt8) : HexWriter := bytes.foldl put writer

theorem putAll_eq (writer : HexWriter) (bytes : List UInt8) :
    writer.putAll bytes =
      { out := writer.out ++ Hex.encode bytes, o := writer.o + 2 * bytes.length } := by
  induction bytes generalizing writer with
  | nil => simp [putAll, Hex.encode]
  | cons byte bytes ih =>
    show (writer.put byte).putAll bytes = _
    rw [ih]
    simp [put, Hex.encode, Nat.mul_add, Nat.add_assoc, Nat.add_comm 2]

end HexWriter

/-- `datum_stratum_coinbase_for_block_hex`, with what it writes and what it returns. -/
def coinbaseForBlockHex (outSize : Nat) (coinbaseTxn : List UInt8) (addWitness : Bool) :
    HexWriter :=
  let size := coinbaseTxn.length
  let inserts := addWitness && !alreadyWitnessed coinbaseTxn
  if addWitness && size < 8 then ⟨[], 0⟩
  else if !addWitness && size < 1 then ⟨[], 0⟩
  else if (size + if inserts then 36 else 0) * 2 > outSize then ⟨[], 0⟩
  else if inserts then
    let writer := HexWriter.putAll ⟨[], 0⟩ (coinbaseTxn.take 4)
    let writer := (writer.put 0x00).put 0x01
    let writer := writer.putAll ((coinbaseTxn.drop 4).take (size - 4 - 4))
    let writer := (writer.put 0x01).put 0x20
    let writer := writer.putAll (List.replicate 32 0x00)
    writer.putAll (coinbaseTxn.drop (size - 4))
  else HexWriter.putAll ⟨[], 0⟩ coinbaseTxn

/-- The bytes that a coinbase is written with. -/
def coinbaseWritten (coinbaseTxn : List UInt8) (addWitness : Bool) : List UInt8 :=
  if addWitness && !alreadyWitnessed coinbaseTxn then insertWitness coinbaseTxn else coinbaseTxn

/-- The call returns zero. -/
def CoinbaseRefused (outSize : Nat) (coinbaseTxn : List UInt8) (addWitness : Bool) : Prop :=
  coinbaseTxn.length < (if addWitness then 8 else 1) ∨
    outSize < 2 * (coinbaseWritten coinbaseTxn addWitness).length

section Text

variable {outSize : Nat} {coinbaseTxn : List UInt8} {addWitness : Bool}

theorem length_coinbaseWritten
    (hlong : ¬ coinbaseTxn.length < if addWitness then 8 else 1) :
    (coinbaseWritten coinbaseTxn addWitness).length =
      coinbaseTxn.length + if addWitness && !alreadyWitnessed coinbaseTxn then 36 else 0 := by
  unfold coinbaseWritten
  by_cases hinserts : (addWitness && !alreadyWitnessed coinbaseTxn) = true
  · rw [if_pos hinserts, if_pos hinserts]
    rw [if_pos (Bool.and_elim_left hinserts)] at hlong
    exact length_insertWitness (Nat.le_of_not_lt hlong)
  · rw [if_neg hinserts, if_neg hinserts, Nat.add_zero]

theorem coinbaseForBlockHex_of_refused (h : CoinbaseRefused outSize coinbaseTxn addWitness) :
    coinbaseForBlockHex outSize coinbaseTxn addWitness = ⟨[], 0⟩ := by
  unfold coinbaseForBlockHex
  by_cases hlong : coinbaseTxn.length < if addWitness then 8 else 1
  · cases addWitness with
    | false =>
      have hshort : coinbaseTxn.length < 1 := hlong
      simp [hshort]
    | true =>
      have hshort : coinbaseTxn.length < 8 := hlong
      simp [hshort]
  · have hroom := h.resolve_left hlong
    rw [length_coinbaseWritten hlong, Nat.mul_comm] at hroom
    dsimp only
    rw [if_pos hroom, ite_self, ite_self]

theorem coinbaseForBlockHex_of_not_refused
    (h : ¬ CoinbaseRefused outSize coinbaseTxn addWitness) :
    coinbaseForBlockHex outSize coinbaseTxn addWitness =
      { out := Hex.encode (coinbaseWritten coinbaseTxn addWitness)
        o := 2 * (coinbaseWritten coinbaseTxn addWitness).length } := by
  obtain ⟨hlong, hroom⟩ := not_or.mp h
  have hlength := length_coinbaseWritten hlong
  have hwitness : ¬ (addWitness && decide (coinbaseTxn.length < 8)) = true := by
    cases addWitness with
    | false => simp
    | true => simpa using hlong
  have hplain : ¬ (!addWitness && decide (coinbaseTxn.length < 1)) = true := by
    cases addWitness with
    | false => simpa using hlong
    | true => simp
  rw [hlength, Nat.mul_comm] at hroom
  unfold coinbaseForBlockHex
  rw [if_neg hwitness, if_neg hplain, if_neg hroom, hlength]
  unfold coinbaseWritten
  by_cases hinserts : (addWitness && !alreadyWitnessed coinbaseTxn) = true
  · rw [if_pos (Bool.and_elim_left hinserts)] at hlong
    rw [if_pos hinserts, if_pos hinserts, if_pos hinserts]
    have hsplit : (coinbaseTxn.take 4).length + ((coinbaseTxn.drop 4).take
        (coinbaseTxn.length - 4 - 4)).length + (coinbaseTxn.drop (coinbaseTxn.length - 4)).length =
          coinbaseTxn.length := by
      simp only [List.length_take, List.length_drop]
      omega
    simp only [HexWriter.putAll_eq, HexWriter.put, HexWriter.mk.injEq]
    constructor
    · simp [insertWitness, Hex.encode, Nat.sub_sub]
    · rw [List.length_replicate]
      omega
  · rw [if_neg hinserts, if_neg hinserts, if_neg hinserts, HexWriter.putAll_eq]
    simp

/-- A transaction with a marker behind its version, and one item of zeros as its witness in
    front of its lock time. -/
def WitnessOf (txn written : List UInt8) : Prop :=
  ∃ version body lockTime, version.length = 4 ∧ lockTime.length = 4 ∧
    txn = version ++ body ++ lockTime ∧
    written = version ++ [0x00, 0x01] ++ body ++ ([0x01, 0x20] ++ List.replicate 32 0x00) ++
      lockTime

/-- The id of a transaction, which leaves its witness out. -/
def txid (sha256 : List UInt8 → Hash32) (txn : List UInt8) : Hash32 :=
  doubleSha256 sha256 (strippedTxn txn)

/-- The text of a coinbase is the one that is asked for, and is there unless the coinbase is
    too short or the text too long. -/
structure InsertionSound (outSize : Nat) (txn : List UInt8) (addWitness : Bool)
    (run : HexWriter) : Prop where
  count : run.o = run.out.length
  room : run.o ≤ outSize
  kept : 0 < run.o → addWitness = false ∨ alreadyWitnessed txn = true →
    run.out = Hex.encode txn ∧ Hex.decode run.out = txn
  inserted : 0 < run.o → addWitness = true → alreadyWitnessed txn = false →
    ∃ written, run.out = Hex.encode written ∧ Hex.decode run.out = written ∧
      WitnessOf txn written ∧ strippedTxn written = txn ∧
      ∀ sha256, txid sha256 written = txid sha256 txn
  refused : run.o = 0 → txn.length < (if addWitness then 8 else 1) ∨
    outSize < 2 * (txn.length + if addWitness && !alreadyWitnessed txn then 36 else 0)

theorem witnessOf_insertWitness (hlong : 8 ≤ coinbaseTxn.length) :
    WitnessOf coinbaseTxn (insertWitness coinbaseTxn) := by
  refine ⟨coinbaseTxn.take 4, (coinbaseTxn.drop 4).take (coinbaseTxn.length - 8),
    coinbaseTxn.drop (coinbaseTxn.length - 4), ?_, ?_, ?_, ?_⟩
  · rw [List.length_take]
    omega
  · rw [List.length_drop]
    omega
  · have hlast : coinbaseTxn.drop (coinbaseTxn.length - 4) =
        (coinbaseTxn.drop 4).drop (coinbaseTxn.length - 8) := by
      rw [List.drop_drop]
      congr 1
      omega
    rw [hlast, List.append_assoc, List.take_append_drop, List.take_append_drop]
  · simp [insertWitness]

theorem insertionSound (outSize : Nat) (coinbaseTxn : List UInt8) (addWitness : Bool) :
    InsertionSound outSize coinbaseTxn addWitness
      (coinbaseForBlockHex outSize coinbaseTxn addWitness) := by
  by_cases hrefused : CoinbaseRefused outSize coinbaseTxn addWitness
  · rw [coinbaseForBlockHex_of_refused hrefused]
    refine ⟨rfl, Nat.zero_le _, nofun, nofun, fun _ => ?_⟩
    by_cases hlong : coinbaseTxn.length < if addWitness then 8 else 1
    · exact .inl hlong
    · rw [← length_coinbaseWritten hlong]
      exact hrefused
  · rw [coinbaseForBlockHex_of_not_refused hrefused]
    obtain ⟨hlong, hroom⟩ := not_or.mp hrefused
    have hwritten := length_coinbaseWritten hlong
    constructor
    case count => exact (Hex.length_encode _).symm
    case room => exact Nat.le_of_not_lt hroom
    case kept =>
      intro _ hplain
      have hsame : coinbaseWritten coinbaseTxn addWitness = coinbaseTxn := by
        unfold coinbaseWritten
        rcases hplain with hplain | hplain <;> simp [hplain]
      rw [hsame]
      exact ⟨rfl, Hex.decode_encode _⟩
    case inserted =>
      rintro _ rfl hunmarked
      have hinserted : coinbaseWritten coinbaseTxn true = insertWitness coinbaseTxn := by
        simp [coinbaseWritten, hunmarked]
      have hlong : 8 ≤ coinbaseTxn.length := Nat.le_of_not_lt hlong
      have hstripped := strippedTxn_insertWitness hlong
      rw [hinserted]
      refine ⟨insertWitness coinbaseTxn, rfl, Hex.decode_encode _, witnessOf_insertWitness hlong,
        hstripped, fun sha256 => ?_⟩
      have hplain : strippedTxn coinbaseTxn = coinbaseTxn := by
        simp [strippedTxn, hunmarked]
      rw [txid, txid, hstripped, hplain]
    case refused =>
      intro hzero
      have hzero : 2 * (coinbaseWritten coinbaseTxn addWitness).length = 0 := hzero
      rw [hwritten] at hzero
      left
      split_ifs <;> omega

/-- What a block is written with is this text. -/
theorem coinbaseForBlock_eq (coinbaseTxn : List UInt8) (addWitness : Bool) :
    coinbaseForBlock coinbaseTxn addWitness =
      let run := coinbaseForBlockHex ((maxCoinbaseTxnSize + 36) * 2 + 1) coinbaseTxn addWitness
      if run.o = 0 then none else some (Hex.decode run.out) := by
  dsimp only
  by_cases hlong : coinbaseTxn.length < if addWitness then 8 else 1
  · rw [coinbaseForBlockHex_of_refused (.inl hlong), if_pos rfl, coinbaseForBlock]
    exact if_pos hlong
  · have hwritten := length_coinbaseWritten hlong
    rw [coinbaseForBlock, if_neg hlong]
    by_cases hroom : (maxCoinbaseTxnSize + 36) * 2 + 1 <
        2 * (coinbaseWritten coinbaseTxn addWitness).length
    · rw [coinbaseForBlockHex_of_refused (.inr hroom), if_pos rfl]
      rw [hwritten, Nat.mul_comm 2] at hroom
      exact if_pos hroom
    · have hpos : 2 * (coinbaseWritten coinbaseTxn addWitness).length ≠ 0 := by
        rw [hwritten]
        split_ifs at hlong <;> omega
      rw [coinbaseForBlockHex_of_not_refused (not_or.mpr ⟨hlong, hroom⟩), if_neg hpos,
        Hex.decode_encode]
      rw [hwritten, Nat.mul_comm 2] at hroom
      exact if_neg hroom

end Text

/-! ## The coinbases that come there -/

/-- The size of `cbhex`. -/
def cbhexSize : Nat := (maxCoinbaseTxnSize + 36) * 2 + 1

/-- The coinbase of a type, with or without a pool. -/
def coinbaseOfType (job : CoinbaserJob) (script : List UInt8) (type : Fin 6) : StratumCoinbase :=
  if job.availableCoinbaseOutputs.isEmpty ∨ type = 0 then emptyCoinbase job script
  else typedCoinbase job script type

/-- The coinbases of jobs: those of all types, and those of single miners. The scripts of a
    job have 64 bytes in its record. -/
inductive JobCoinbase : StratumCoinbase → Prop
  | ofType {tags : CoinbaseTags} {overrideTag : Option (List UInt8)} {tmpl : BlockTemplate}
      {job : CoinbaserJob} {outputs : List DatumTxnOutput} {script : CoinbaseScript}
      (hscript : generateCoinbaseScript tags overrideTag tmpl.toDatumTemplate
        job.carouselSupplierName = some script)
      (hpool : job.poolAddrScript.length ≤ 64) (houtputs : ScriptsInRange outputs)
      (type : Fin 6) : JobCoinbase (coinbaseOfType (limitedJob tmpl job outputs) script.cb type)
  | ofUser {decode : List UInt8 → Option (List UInt8)} {config : LottoConfig} {job : StratumJob}
      {userScript feeScript : List UInt8} {feeBps : UInt16} {coinbase : StratumCoinbase}
      (hbuilt : buildUserCoinbase decode config job userScript feeScript feeBps = some coinbase) :
      JobCoinbase coinbase

theorem length_tagPush_le_space {space : Nat} {primary secondary push : List UInt8}
    (h : tagPush space primary secondary = some push) : push.length ≤ space + 3 := by
  by_cases hfit : TagsFit space primary.length secondary.length
  · obtain ⟨kept, -, hitem, hpush⟩ := tagPush_of_tagsFit hfit
    obtain rfl := Option.some.inj (hpush.symm.trans h)
    have hop := length_pushBytes_le (tagItem primary kept).length
    rw [List.length_append]
    omega
  · obtain ⟨k, content, rfl, hcontent, hk⟩ := tagPush_of_not_tagsFit hfit h
    have hop := length_pushBytes_le k
    rw [List.length_append]
    omega

/-- The script of the input stays short, whatever tag a pool sends. -/
theorem length_generateCoinbaseScript_le {tags : CoinbaseTags}
    {overrideTag : Option (List UInt8)} {tmpl : DatumTemplate} {supName : List UInt8}
    {script : CoinbaseScript}
    (h : generateCoinbaseScript tags overrideTag tmpl supName = some script) :
    script.cb.length ≤ 279 := by
  rw [generateCoinbaseScript_eq] at h
  obtain ⟨push, hpush, rfl⟩ := Option.map_eq_some_iff.mp h
  have hspace := length_tagPush_le_space hpush
  have hheight := length_appendUNum_le tmpl.height
  have hid := length_uniqueIdWritten_le tags overrideTag.isSome
  have hheadline : (b2bHeadline tmpl).length ≤ 100 := by
    unfold b2bHeadline
    split_ifs
    · exact tmpl.headline_length
    · exact Nat.zero_le _
  rw [tagSpace_eq] at hspace
  rw [length_scriptAround, scriptOverhead]
  split_ifs at hspace ⊢ <;> omega

theorem length_coinbaseOfType_le {tmpl : BlockTemplate} {job : CoinbaserJob}
    {outputs : List DatumTxnOutput} {script extranonce : List UInt8}
    (hscript : script.length ≤ 279) (hpool : job.poolAddrScript.length ≤ 64)
    (houtputs : ScriptsInRange outputs) (type : Fin 6) (hlen : extranonce.length = 12) :
    ((coinbaseOfType (limitedJob tmpl job outputs) script type).txn extranonce).length ≤
      maxCoinbaseTxnSize := by
  have hinput : (CoinbaseInput.mk script 0).bytes.length ≤ 279 := hscript
  unfold coinbaseOfType
  split_ifs with hempty
  · have hsize := @length_emptyCoinbase tmpl job ⟨script, 0⟩ extranonce outputs hpool hlen
    rw [hsize]
    exact coinbaseSize_le hpool hinput (by decide) (by decide)
  · have htype : type ≠ 0 := fun hzero => hempty (.inr hzero)
    have hsize : ((typedCoinbase (limitedJob tmpl job outputs) (CoinbaseInput.mk script 0).bytes
        type).txn extranonce).length ≤ maxCoinbaseTxnSize :=
      length_typedCoinbase_le houtputs hpool hinput htype hlen
    exact hsize

/-- No coinbase of a job is longer than the text has room for. -/
theorem JobCoinbase.length_le {coinbase : StratumCoinbase} (h : JobCoinbase coinbase)
    {extranonce : List UInt8} (hlen : extranonce.length = 12) :
    (coinbase.txn extranonce).length ≤ maxCoinbaseTxnSize := by
  cases h with
  | ofType hscript hpool houtputs type =>
    exact length_coinbaseOfType_le (length_generateCoinbaseScript_le hscript) hpool houtputs type
      hlen
  | ofUser hbuilt =>
    unfold buildUserCoinbase at hbuilt
    dsimp only at hbuilt
    split_ifs at hbuilt with hscripts hfront hback
    obtain rfl := Option.some.inj hbuilt
    simp only [Bool.or_eq_true, decide_eq_true_eq] at hfront
    simp only [StratumCoinbase.txn, List.length_append, hlen, maxCoinbaseTxnSize]
    omega

theorem JobCoinbase.not_refused {coinbase : StratumCoinbase} (h : JobCoinbase coinbase)
    {extranonce : List UInt8} (hlen : extranonce.length = 12) (addWitness : Bool) :
    ¬ CoinbaseRefused cbhexSize (coinbase.txn extranonce) addWitness := by
  have hroom := h.length_le hlen
  have hlow : 12 ≤ (coinbase.txn extranonce).length := by
    simp only [StratumCoinbase.txn, List.length_append, hlen]
    omega
  have hlong : ¬ (coinbase.txn extranonce).length < if addWitness then 8 else 1 := by
    split_ifs <;> omega
  refine not_or.mpr ⟨hlong, ?_⟩
  rw [length_coinbaseWritten hlong, cbhexSize]
  split_ifs <;> omega

/-- The witness is inserted exactly, and no coinbase of a job is written without it for want
    of room. -/
theorem coinbaseForBlockHex_sound :
    (∀ outSize coinbaseTxn addWitness, InsertionSound outSize coinbaseTxn addWitness
      (coinbaseForBlockHex outSize coinbaseTxn addWitness)) ∧
    ∀ coinbase, JobCoinbase coinbase → ∀ extranonce : List UInt8, extranonce.length = 12 →
      ∀ addWitness,
        0 < (coinbaseForBlockHex cbhexSize (coinbase.txn extranonce) addWitness).o := by
  refine ⟨insertionSound, ?_⟩
  intro coinbase hcoinbase extranonce hlen addWitness
  have hnot := hcoinbase.not_refused hlen addWitness
  rw [coinbaseForBlockHex_of_not_refused hnot]
  show 0 < 2 * (coinbaseWritten (coinbase.txn extranonce) addWitness).length
  rw [length_coinbaseWritten (not_or.mp hnot).1]
  simp only [StratumCoinbase.txn, List.length_append, hlen]
  omega

/-- The coinbase of type 4 that pays nine outputs is written with its witness. -/
theorem nineOutputs_hasRoom : ∃ script,
    generateCoinbaseScript plainTags none quietTemplate.toDatumTemplate
        splitCoinbaserJob.carouselSupplierName = some script ∧
      0 < (coinbaseForBlockHex cbhexSize
        ((coinbaseOfType (limitedJob quietTemplate splitCoinbaserJob
          (List.replicate 9 (fillingOutput 34 1000))) script.cb 4).txn zeroExtranonce) true).o := by
  obtain ⟨script, hscript⟩ : ∃ script, generateCoinbaseScript plainTags none
      quietTemplate.toDatumTemplate splitCoinbaserJob.carouselSupplierName = some script :=
    Option.isSome_iff_exists.mp (by decide +kernel)
  have hscripts : ScriptsInRange (List.replicate 9 (fillingOutput 34 1000)) := by
    unfold ScriptsInRange
    decide
  exact ⟨script, hscript, coinbaseForBlockHex_sound.2 _
    (.ofType hscript (by decide) hscripts 4) zeroExtranonce rfl true⟩

end ChirpGateway
