import ChirpGateway.Coinbase.Room
import ChirpGateway.Lib.Transaction

/-!
# The shared coinbases as transactions

Whatever the outputs, the type and the room it is given, a coinbase is read back
as one transaction that pays the coinbase value, to its last byte
(`datum_coinbaser.c:208-336`, `369-526` and `528-795`).
-/

namespace ChirpGateway

open Bytes Wire

/-! ## What the packing loop chooses -/

section Pack

variable {coinbaseValue : Nat}

/-- The chosen outputs have rising places in the list. -/
theorem packOutputs_pairwise (room : Int) (mval k : Nat) (outputs : List DatumTxnOutput) :
    (∀ entry ∈ packOutputs coinbaseValue room mval k outputs, k ≤ entry.1) ∧
      (packOutputs coinbaseValue room mval k outputs).Pairwise fun a b => a.1 < b.1 := by
  induction outputs generalizing room mval k with
  | nil => exact ⟨nofun, List.Pairwise.nil⟩
  | cons output outputs ih =>
    have hone : (∀ entry ∈ [(k, output)], k ≤ entry.1) ∧
        [(k, output)].Pairwise fun a b => a.1 < b.1 := by
      refine ⟨?_, List.pairwise_singleton _ _⟩
      intro entry hentry
      rw [List.mem_singleton.mp hentry]
    simp only [packOutputs]
    split
    · split
      · exact hone
      · split
        · exact hone
        · obtain ⟨hlow, hpairs⟩ := ih (room - outputCost output)
            ((mval + output.valueSats) % 2 ^ 64) (k + 1)
          refine ⟨?_, List.pairwise_cons.mpr ⟨hlow, hpairs⟩⟩
          intro entry hentry
          rcases List.mem_cons.mp hentry with rfl | hrest
          · exact le_rfl
          · exact Nat.le_of_succ_le (hlow entry hrest)
    · obtain ⟨hlow, hpairs⟩ := ih room mval (k + 1)
      exact ⟨fun entry hentry => Nat.le_of_succ_le (hlow entry hentry), hpairs⟩

/-- Entries with rising places are cut in two by a place. -/
theorem filter_lt_append_filter_le {entries : List (Nat × DatumTxnOutput)} (place : Nat)
    (h : entries.Pairwise fun a b => a.1 < b.1) :
    entries.filter (·.1 < place) ++ entries.filter (place ≤ ·.1) = entries := by
  induction entries with
  | nil => rfl
  | cons entry entries ih =>
    obtain ⟨hlow, hpairs⟩ := List.pairwise_cons.mp h
    by_cases hfirst : entry.1 < place
    · have hsecond : ¬ place ≤ entry.1 := Nat.not_le.mpr hfirst
      simp only [List.filter_cons, hfirst, hsecond, decide_true, decide_false, if_true,
        Bool.false_eq_true, if_false, List.cons_append, ih hpairs]
    · have hhigh : ∀ other ∈ entry :: entries, place ≤ other.1 := by
        intro other hother
        rcases List.mem_cons.mp hother with rfl | hrest
        · omega
        · have hlt := hlow other hrest
          omega
      have hnone : (entry :: entries).filter (·.1 < place) = [] := by
        apply List.filter_eq_nil_iff.mpr
        intro other hother
        have hle := hhigh other hother
        rw [decide_eq_true_eq]
        omega
      have hall : (entry :: entries).filter (place ≤ ·.1) = entry :: entries := by
        apply List.filter_eq_self.mpr
        intro other hother
        exact decide_eq_true (hhigh other hother)
      rw [hnone, hall, List.nil_append]

/-- The chosen outputs are worth no more than the coinbase, where no sum of
    values wraps around. -/
theorem outputsTotal_packOutputs_le {room : Int} {mval : Nat} (k : Nat)
    {outputs : List DatumTxnOutput} (hmval : mval ≤ coinbaseValue)
    (hsum : mval + outputsTotal outputs < 2 ^ 64) :
    mval + outputsTotal ((packOutputs coinbaseValue room mval k outputs).map Prod.snd) ≤
      coinbaseValue := by
  induction outputs generalizing room mval k with
  | nil => exact hmval
  | cons output outputs ih =>
    have htotal : outputsTotal (output :: outputs) = output.valueSats + outputsTotal outputs := rfl
    have hone : outputsTotal [output] = output.valueSats := rfl
    rw [htotal] at hsum
    have hmod : (mval + output.valueSats) % 2 ^ 64 = mval + output.valueSats := by
      apply Nat.mod_eq_of_lt
      omega
    simp only [packOutputs, hmod]
    split
    · next hfits =>
      split
      · rw [List.map_singleton, hone]
        exact hfits.2
      · split
        · rw [List.map_singleton, hone]
          exact hfits.2
        · have hcons (entries : List (Nat × DatumTxnOutput)) :
              outputsTotal (((k, output) :: entries).map Prod.snd) =
                output.valueSats + outputsTotal (entries.map Prod.snd) := rfl
          rw [hcons, ← Nat.add_assoc]
          apply ih (k + 1) hfits.2
          omega
    · apply ih (k + 1) hmval
      omega

/-- Nothing is chosen for less than no room. -/
theorem packOutputs_of_neg {room : Int} (hroom : room < 0) (mval k : Nat)
    (outputs : List DatumTxnOutput) : packOutputs coinbaseValue room mval k outputs = [] := by
  induction outputs generalizing k with
  | nil => rfl
  | cons output outputs ih =>
    simp only [packOutputs]
    rw [if_neg (by omega)]
    exact ih (k + 1)

/-- The number of chosen outputs fits an `int`, as the room does. -/
theorem length_packOutputs_lt {room : Int} (hroom : room < 2 ^ 31) (mval k : Nat)
    (outputs : List DatumTxnOutput) :
    (packOutputs coinbaseValue room mval k outputs).length < 2 ^ 31 := by
  by_cases hneg : room < 0
  · rw [packOutputs_of_neg hneg]
    decide
  · have hcost :
        (totalCost ((packOutputs coinbaseValue room mval k outputs).map Prod.snd) : Int) ≤
        room := totalCost_packOutputs_le (Int.not_lt.mp hneg) mval k outputs
    generalize packOutputs coinbaseValue room mval k outputs = packed at hcost ⊢
    have hlen := List.length_le_sum_of_one_le ((packed.map Prod.snd).map outputCost) (by
      rw [List.forall_mem_map]
      intro output _
      rw [outputCost]
      omega)
    rw [List.length_map, List.length_map] at hlen
    rw [totalCost] at hcost
    omega

end Pack

/-! ## The transaction -/

/-- The coinbase of one type with so much room for outputs: what
    `generate_coinbase_txns_for_stratum_job_subtypebysize` finishes, and the
    pool's alone for type 0. -/
def coinbaseOfRoom (job : CoinbaserJob) (input : List UInt8) (type : Fin 6) (room : Int) :
    StratumCoinbase :=
  if type = 0 then emptyCoinbase job input
  else
    let spaceForEn := input.length ≤ 85 && type ≠ 2
    writeCoinbase job (coinb1Base job input spaceForEn) spaceForEn (type = 2)
      (packOutputs job.coinbaseValue room 0 0 job.availableCoinbaseOutputs)

theorem typedCoinbase_eq (job : CoinbaserJob) (input : List UInt8) {type : Fin 6}
    (htype : type ≠ 0) :
    typedCoinbase job input type =
      coinbaseOfRoom job input type
        (fitToTemplate (coinbaseMaxSize type) (cbReqSz job input type) job.blockTemplate) := by
  rw [coinbaseOfRoom, if_neg htype, typedCoinbase]

/-- The input of a coinbase: no outpoint, and the extranonce behind the script if
    that has the space. -/
def coinbaseTxIn (job : CoinbaserJob) (input : List UInt8) (spaceForEn : Bool)
    (extranonce : List UInt8) : TxIn where
  outpoint := List.replicate 32 0 ++ List.replicate 4 0xff
  script :=
    if spaceForEn then input ++ 0x0e :: (enPrefixBytes job.enPrefix ++ extranonce) else input
  sequence := coinbaseSequence

/-- The coinbase that pays `front` before the extranonce and `back` behind it,
    the pool what they leave, and commits to the witness. -/
def sharedTx (job : CoinbaserJob) (input : List UInt8) (spaceForEn : Bool)
    (extranonce : List UInt8) (front back : List DatumTxnOutput) : Tx where
  version := [1, 0, 0, 0]
  inputs := [coinbaseTxIn job input spaceForEn extranonce]
  outputs := front.map DatumTxnOutput.toTxOut ++
    ((if spaceForEn then [] else [extranonceOutput job.enPrefix extranonce]) ++
      (back.map DatumTxnOutput.toTxOut ++
        [poolOutput job (outputsTotal (front ++ back)), witnessOutput job.blockTemplate]))
  lockTime := List.replicate 4 0

/-- Whatever the extranonce is, the network reads one transaction to its last byte
    out of the coinbase. It pays available outputs, in order, and the pool what
    they leave. -/
def WellFormedCoinbase (job : CoinbaserJob) (input : List UInt8) (coinbase : StratumCoinbase) :
    Prop :=
  ∀ extranonce : List UInt8, extranonce.length = 12 → ∃ spaceForEn front back,
    readTx (coinbase.txn extranonce) =
      some (sharedTx job input spaceForEn extranonce front back) ∧
    (front ++ back).Sublist job.availableCoinbaseOutputs ∧
    ((sharedTx job input spaceForEn extranonce front back).outputs.map TxOut.value).sum =
      job.coinbaseValue

/-- With two digits a byte the tail is the witness commitment's output and the
    lock time. -/
theorem coinbaseTail_of_even {tmpl : DatumTemplate}
    (heven : tmpl.defaultWitnessCommitment.length % 2 = 0) :
    coinbaseTail tmpl = (witnessOutput tmpl).encode ++ List.replicate 4 0 := by
  obtain ⟨-, hmax⟩ := tmpl.witnessCommitment_length
  have hsplit : Hex.decode (tmpl.defaultWitnessCommitment ++ ascii "00000000") =
      Hex.decode tmpl.defaultWitnessCommitment ++ List.replicate 4 0 := by
    rw [Hex.decode_append_of_even heven]
    apply congrArg
    decide
  have hlen : (Hex.decode tmpl.defaultWitnessCommitment).length =
      tmpl.defaultWitnessCommitment.length / 2 := by
    rw [Hex.length_decode]
    omega
  have hscript : (witnessOutput tmpl).script = Hex.decode tmpl.defaultWitnessCommitment := by
    rw [witnessOutput, hsplit, ← hlen, List.take_left' rfl]
  have hvalue : leBytes 8 (witnessOutput tmpl).value = List.replicate 8 0 := leBytes_zero 8
  rw [coinbaseTail, hsplit, TxOut.encode, hvalue, hscript, hlen, varint_of_lt (by omega)]
  simp only [List.append_assoc, List.cons_append, List.nil_append]

section Layout

variable {job : CoinbaserJob} {input extranonce : List UInt8}
  {packed : List (Nat × DatumTxnOutput)}

theorem sharedTx_fits {front back : List DatumTxnOutput} (spaceForEn : Bool)
    (hinput : input.length < 2 ^ 63) (hpool : job.poolAddrScript.length < 2 ^ 64)
    (hlen : extranonce.length = 12) (hcount : (front ++ back).length < 2 ^ 63)
    (hfits : ∀ output ∈ front ++ back, output.toTxOut.Fits) :
    (sharedTx job input spaceForEn extranonce front back).Fits := by
  have hstarts : (enPrefixBytes job.enPrefix).length = 2 := rfl
  rw [List.length_append] at hcount
  refine ⟨rfl, ?_, ?_, ?_, ?_, rfl⟩
  · show 1 < 2 ^ 64
    decide
  · intro txIn htxIn
    rw [List.mem_singleton.mp htxIn]
    refine ⟨rfl, ?_, rfl⟩
    simp only [coinbaseTxIn]
    split
    · rw [List.length_append, List.length_cons, List.length_append, hstarts, hlen]
      omega
    · omega
  · simp only [sharedTx, List.length_append, List.length_map, List.length_cons, List.length_nil]
    split <;> simp only [List.length_cons, List.length_nil] <;> omega
  · intro output houtput
    simp only [sharedTx, List.mem_append, List.mem_map, List.mem_cons, List.not_mem_nil,
      or_false] at houtput
    rcases houtput with ⟨paid, hpaid, rfl⟩ | hown | ⟨paid, hpaid, rfl⟩ | rfl | rfl
    · exact hfits paid (List.mem_append_left _ hpaid)
    · cases spaceForEn
      · rw [if_neg Bool.false_ne_true, List.mem_singleton] at hown
        subst hown
        exact extranonceOutput_fits hlen
      · rw [if_pos rfl] at hown
        cases hown
    · exact hfits paid (List.mem_append_right _ hpaid)
    · exact poolOutput_fits hpool _
    · exact witnessOutput_fits _

/-- The bytes of a coinbase are those of the transaction. The chosen outputs stand
    before the extranonce only where it has an output and the type asks for it. -/
theorem txn_writeCoinbase (input : List UInt8) (spaceForEn special : Bool)
    (hspace : spaceForEn = true → special = false)
    (heven : job.blockTemplate.defaultWitnessCommitment.length % 2 = 0)
    (hlen : extranonce.length = 12) (htotal : outputsTotal (packed.map Prod.snd) < 2 ^ 64)
    (hpairs : packed.Pairwise fun a b => a.1 < b.1) :
    ∃ front back, front ++ back = packed.map Prod.snd ∧
      (writeCoinbase job (coinb1Base job input spaceForEn) spaceForEn special packed).txn
          extranonce = (sharedTx job input spaceForEn extranonce front back).encode := by
  have hmod (chosen : List (Nat × DatumTxnOutput))
      (hchosen : outputsTotal (chosen.map Prod.snd) < 2 ^ 64) :
      (chosen.map fun entry => entry.2.valueSats).sum % 2 ^ 64 =
        outputsTotal (chosen.map Prod.snd) := by
    rw [sum_valueSats_snd]
    exact Nat.mod_eq_of_lt hchosen
  have hstarts : (enPrefixBytes job.enPrefix).length = 2 := rfl
  have htail := coinbaseTail_of_even heven
  cases spaceForEn
  · -- the extranonce has an output of its own
    cases special
    · refine ⟨[], packed.map Prod.snd, rfl, ?_⟩
      simp only [StratumCoinbase.txn, writeCoinbase, coinb1Base, sharedTx, Tx.encode,
        coinbaseTxIn, TxIn.encode, Bool.false_eq_true, if_false, htail, hmod packed htotal,
        cbStart_eq, flatMap_encode_snd, List.map_nil, List.nil_append, List.flatMap_append,
        List.flatMap_cons, List.flatMap_nil, List.append_nil, List.append_assoc,
        ← extranonceFront_append hlen, List.length_cons, List.length_nil, List.length_append,
        List.length_map, List.cons_append]
    · have hcut := filter_lt_append_filter_le
        (specialCount (coinb1Base job input false).length packed) hpairs
      have houtputs := congrArg (List.map Prod.snd) hcut
      have hcount := congrArg List.length hcut
      rw [List.map_append] at houtputs
      rw [List.length_append] at hcount
      refine ⟨_, _, houtputs, ?_⟩
      simp only [StratumCoinbase.txn, writeCoinbase, sharedTx, houtputs]
      generalize packed.filter (·.1 < specialCount (coinb1Base job input false).length packed) =
        front at houtputs hcount ⊢
      generalize packed.filter (specialCount (coinb1Base job input false).length packed ≤ ·.1) =
        back at houtputs hcount ⊢
      simp only [coinb1Base, Tx.encode, coinbaseTxIn, TxIn.encode, Bool.false_eq_true, if_false,
        if_true, htail, hmod packed htotal, cbStart_eq, flatMap_encode_snd, List.nil_append,
        List.flatMap_append, List.flatMap_cons, List.flatMap_nil, List.append_nil,
        List.append_assoc, ← extranonceFront_append hlen, List.length_cons, List.length_nil,
        List.length_append, List.length_map, List.cons_append]
      have hvarint : packed.length + 3 = front.length + (back.length + (0 + 1 + 1) + 1) := by
        omega
      rw [hvarint]
  · -- the extranonce is pushed behind the script
    rw [hspace rfl]
    refine ⟨[], packed.map Prod.snd, rfl, ?_⟩
    simp only [StratumCoinbase.txn, writeCoinbase, coinb1Base, sharedTx, Tx.encode,
      coinbaseTxIn, TxIn.encode, Bool.false_eq_true, if_false, if_true, htail, hmod packed htotal,
      cbStart_eq, flatMap_encode_snd, List.map_nil, List.nil_append, List.flatMap_append,
      List.flatMap_cons, List.flatMap_nil, List.append_nil, List.append_assoc, List.length_cons,
      List.length_nil, List.length_append, List.length_map, List.cons_append, hstarts, hlen]

/-- What the pool's output and the others are worth together. -/
theorem sum_sharedTx {front back : List DatumTxnOutput} (spaceForEn : Bool)
    (htotal : outputsTotal (front ++ back) ≤ job.coinbaseValue) :
    ((sharedTx job input spaceForEn extranonce front back).outputs.map TxOut.value).sum =
      job.coinbaseValue := by
  have hvalues (outputs : List DatumTxnOutput) :
      ((outputs.map DatumTxnOutput.toTxOut).map TxOut.value).sum = outputsTotal outputs := by
    rw [List.map_map]
    rfl
  have hpool : (poolOutput job (outputsTotal (front ++ back))).value =
      job.coinbaseValue - outputsTotal (front ++ back) := by
    rw [poolOutput]
    split
    · rfl
    · show 0 = _
      omega
  have hown : ((if spaceForEn then []
      else [extranonceOutput job.enPrefix extranonce]).map TxOut.value).sum = 0 := by
    cases spaceForEn <;> rfl
  have hwitness : (witnessOutput job.blockTemplate).value = 0 := rfl
  have hsplit := outputsTotal_append front back
  simp only [sharedTx, List.map_append, List.sum_append, hvalues, hown, List.map_cons,
    List.map_nil, List.sum_cons, List.sum_nil, hpool, hwitness]
  omega

/-- Chosen outputs are written as one well-formed transaction. -/
theorem wellFormedCoinbase_writeCoinbase (spaceForEn special : Bool)
    (hspace : spaceForEn = true → special = false) (hinput : input.length < 2 ^ 63)
    (hpool : job.poolAddrScript.length < 2 ^ 64)
    (heven : job.blockTemplate.defaultWitnessCommitment.length % 2 = 0)
    (hpacked : (packed.map Prod.snd).Sublist job.availableCoinbaseOutputs)
    (hpairs : packed.Pairwise fun a b => a.1 < b.1) (hcount : packed.length < 2 ^ 31)
    (hscripts : ∀ output ∈ job.availableCoinbaseOutputs, output.outputScript.length < 2 ^ 64)
    (htotal : outputsTotal (packed.map Prod.snd) ≤ job.coinbaseValue) :
    WellFormedCoinbase job input
      (writeCoinbase job (coinb1Base job input spaceForEn) spaceForEn special packed) := by
  intro extranonce hlen
  have hvalue : job.coinbaseValue < 2 ^ 64 := job.blockTemplate.coinbasevalue.toNat_lt
  obtain ⟨front, back, hcut, htxn⟩ :=
    txn_writeCoinbase input spaceForEn special hspace heven hlen (htotal.trans_lt hvalue) hpairs
  rw [← hcut] at hpacked htotal
  refine ⟨spaceForEn, front, back, ?_, hpacked, sum_sharedTx spaceForEn htotal⟩
  rw [htxn]
  apply readTx_encode
  apply sharedTx_fits spaceForEn hinput hpool hlen
  · rw [hcut, List.length_map]
    omega
  · intro output houtput
    have hle : output.valueSats ≤ outputsTotal (front ++ back) :=
      List.le_sum_of_mem (List.mem_map_of_mem houtput)
    exact ⟨(hle.trans htotal).trans_lt hvalue, hscripts output (hpacked.subset houtput)⟩

end Layout

/-- What a job's outputs are like before a coinbase is made. -/
structure AvailableOutputs (outputs : List DatumTxnOutput) : Prop where
  script_length : ∀ output ∈ outputs,
    1 ≤ output.outputScript.length ∧ output.outputScript.length ≤ 64
  total_lt : outputsTotal outputs < 2 ^ 64

section Types

variable {tags : CoinbaseTags} {job : CoinbaserJob} {input : List UInt8}

theorem fitToTemplate_le (maxSz fixed : Nat) (tmpl : DatumTemplate) :
    fitToTemplate maxSz fixed tmpl ≤ maxSz := by
  simp only [fitToTemplate]
  split_ifs <;> omega

theorem fitToTemplate_lt {maxSz : Nat} (hmax : maxSz < 2 ^ 31) (fixed : Nat)
    (tmpl : DatumTemplate) : fitToTemplate maxSz fixed tmpl < 2 ^ 31 := by
  have hle := fitToTemplate_le maxSz fixed tmpl
  omega

theorem wellFormedCoinbase_coinbaseOfRoom
    (houtputs : AvailableOutputs job.availableCoinbaseOutputs)
    (heven : job.blockTemplate.defaultWitnessCommitment.length % 2 = 0)
    (hpool : job.poolAddrScript.length < 2 ^ 64) (hinput : input.length < 2 ^ 63)
    (type : Fin 6) {room : Int} (hroom : room < 2 ^ 31) :
    WellFormedCoinbase job input (coinbaseOfRoom job input type room) := by
  have hscripts (output : DatumTxnOutput) (houtput : output ∈ job.availableCoinbaseOutputs) :
      output.outputScript.length < 2 ^ 64 :=
    (houtputs.script_length output houtput).2.trans_lt (by decide)
  rw [coinbaseOfRoom]
  split
  · exact wellFormedCoinbase_writeCoinbase _ false (fun _ => rfl) hinput hpool heven
      (List.nil_sublist _) List.Pairwise.nil (by decide) hscripts (Nat.zero_le _)
  · have hpacked : ((packOutputs job.coinbaseValue room 0 0 job.availableCoinbaseOutputs).map
        Prod.snd).Sublist job.availableCoinbaseOutputs := packOutputs_sublist room 0 0 _
    have hpairs : (packOutputs job.coinbaseValue room 0 0 job.availableCoinbaseOutputs).Pairwise
        fun a b => a.1 < b.1 := (packOutputs_pairwise room 0 0 _).2
    have htotal : 0 + outputsTotal ((packOutputs job.coinbaseValue room 0 0
        job.availableCoinbaseOutputs).map Prod.snd) ≤ job.coinbaseValue := by
      apply outputsTotal_packOutputs_le 0 (Nat.zero_le _)
      rw [Nat.zero_add]
      exact houtputs.total_lt
    rw [Nat.zero_add] at htotal
    refine wellFormedCoinbase_writeCoinbase _ _ ?_ hinput hpool heven hpacked hpairs
      (length_packOutputs_lt hroom 0 0 _) hscripts htotal
    intro hspace
    simp only [Bool.and_eq_true, decide_eq_true_eq] at hspace
    exact decide_eq_false hspace.2

/-- Every coinbase of a job, whatever its type and the room it is given, and so
    every coinbase `generate_coinbase_txns_for_stratum_job` sets. -/
theorem sharedCoinbases_wellFormed (tags : CoinbaseTags) (job : CoinbaserJob)
    (houtputs : AvailableOutputs job.availableCoinbaseOutputs)
    (heven : job.blockTemplate.defaultWitnessCommitment.length % 2 = 0)
    (hpool : job.poolAddrScript.length < 2 ^ 64) :
    (∀ (input : List UInt8) (type : Fin 6) (room : Int), input.length < 2 ^ 63 →
      room < 2 ^ 31 → WellFormedCoinbase job input (coinbaseOfRoom job input type room)) ∧
    ∀ input, generateCoinbaseInput tags job.blockTemplate job.carouselSupplierName =
      some input →
      ∃ set, generateCoinbaseTxns tags job = some set ∧
        ∀ type, WellFormedCoinbase job input.bytes (set.coinbase type) := by
  have hroom (input : List UInt8) (type : Fin 6) (room : Int) (hinput : input.length < 2 ^ 63)
      (hlt : room < 2 ^ 31) : WellFormedCoinbase job input (coinbaseOfRoom job input type room) :=
    wellFormedCoinbase_coinbaseOfRoom houtputs heven hpool hinput type hlt
  refine ⟨hroom, ?_⟩
  intro input hinput
  have hlen : input.bytes.length < 2 ^ 63 :=
    (length_generateCoinbaseInput_le hinput).trans_lt (by decide)
  rw [generateCoinbaseTxns, hinput, Option.map_some]
  refine ⟨_, rfl, ?_⟩
  intro type
  show WellFormedCoinbase job input.bytes
    (if job.availableCoinbaseOutputs.isEmpty ∨ type = 0 then emptyCoinbase job input.bytes
      else typedCoinbase job input.bytes type)
  split
  · exact hroom input.bytes 0 0 hlen (by decide)
  · next htype =>
    rw [typedCoinbase_eq job input.bytes fun hzero => htype (Or.inr hzero)]
    have hmax : coinbaseMaxSize type < 2 ^ 31 := by
      have hall : ∀ t : Fin 6, coinbaseMaxSize t < 2 ^ 31 := by decide
      exact hall type
    exact hroom input.bytes type _ hlen (fitToTemplate_lt hmax _ _)

end Types

/-- A job with outputs of 30 and of 43 bytes, one of them worth more than what is
    left. -/
def mixedJob : CoinbaserJob :=
  weighingJob 2000000
    [{ outputScript := List.replicate 22 0x51, valueSats := 100000000 },
      { outputScript := List.replicate 34 0x52, valueSats := 250000000 },
      { outputScript := List.replicate 34 0x53, valueSats := 212500000 }]

/-- Its coinbases are transactions, for every type. -/
theorem mixedJob_wellFormed :
    (∃ room : Int, room < 2 ^ 31 ∧
      WellFormedCoinbase mixedJob weighingInput.bytes
        (coinbaseOfRoom mixedJob weighingInput.bytes 2 room)) ∧
    ∃ set, generateCoinbaseTxns plainTags mixedJob = some set ∧
      (set.coinbase 2).coinb1Bin ≠ (set.coinbase 4).coinb1Bin ∧
      WellFormedCoinbase mixedJob weighingInput.bytes (set.coinbase 2) := by
  have houtputs : AvailableOutputs mixedJob.availableCoinbaseOutputs :=
    ⟨by decide +kernel, by decide +kernel⟩
  have heven : mixedJob.blockTemplate.defaultWitnessCommitment.length % 2 = 0 := by decide +kernel
  have hpool : mixedJob.poolAddrScript.length < 2 ^ 64 := by decide +kernel
  obtain ⟨hroom, htags⟩ := sharedCoinbases_wellFormed plainTags mixedJob houtputs heven hpool
  obtain ⟨set, hset, hall⟩ := htags weighingInput (generateCoinbaseInput_weighing 2000000)
  have hdiffer : (generateCoinbaseTxns plainTags mixedJob).map (fun set =>
      decide ((set.coinbase 2).coinb1Bin = (set.coinbase 4).coinb1Bin)) = some false := by
    decide +kernel
  rw [hset, Option.map_some, Option.some.injEq, decide_eq_false_iff_not] at hdiffer
  exact ⟨⟨500, by decide, hroom _ 2 500 (by decide +kernel) (by decide)⟩,
    ⟨set, hset, hdiffer, hall 2⟩⟩

end ChirpGateway
