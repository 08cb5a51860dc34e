import ChirpGateway.Stratum.BlockLimits

/-!
# The maximum of each type

The sizes that the coinbase types are named after (`datum_coinbaser.c:597-603`), for
miners whose firmware has no room for more, and the bytes that are reserved for what
is not a payout (`datum_coinbaser.c:717-761`). The comment there adds up more bytes
than the code subtracts.
-/

namespace ChirpGateway

open Bytes Wire

/-- The outputs a job can have. -/
structure JobOutputs (outputs : List DatumTxnOutput) : Prop where
  nonempty : outputs ≠ []
  count : outputs.length ≤ 512
  scripts : ScriptsInRange outputs

/-- Whatever the outputs are, the coinbase of one type is not larger than the type
    allows, and no payout is behind the first 300 characters of hexadecimal that the
    split of type 2 counts with. -/
def WithinMaximum (tags : CoinbaseTags) (tmpl : BlockTemplate) (job : CoinbaserJob)
    (type : Fin 6) : Prop :=
  ∀ outputs, JobOutputs outputs →
    ∀ set, generateCoinbaseTxns tags (limitedJob tmpl job outputs) = some set →
      (∀ extranonce : List UInt8, extranonce.length = 12 →
        ((set.coinbase type).txn extranonce).length ≤ coinbaseMaxSize type) ∧
      (type = 2 → ∃ base count payouts,
        (set.coinbase type).coinb1Bin =
            base ++ varint count ++ payouts.flatMap TxOut.encode ++ extranonceFront job.enPrefix ∧
          (payouts = [] ∨ 2 * (base.length + (payouts.flatMap TxOut.encode).length) ≤ 300))

/-- With the bytes that are not counted, all payouts there is room for fit the type. -/
def CountedSuffice (tmpl : DatumTemplate) (poolScript input : Nat) (type : Fin 6) : Prop :=
  ∀ cost, 10 ≤ cost →
    RoomFor tmpl (coinbaseMaxSize type)
        (119 + poolScript + input + if hasSpaceForEn input type then 0 else 10) cost →
      paidSize tmpl poolScript input type cost ≤ coinbaseMaxSize type

/-! ## Payouts in front of the extranonce -/

section Split

variable {packed : List (Nat × DatumTxnOutput)}

/-- With rising places, the entries below a place are among so many first ones. -/
theorem filter_lt_sublist_take (h : packed.Pairwise fun a b => a.1 < b.1) {low : Nat}
    (hlow : ∀ entry ∈ packed, low ≤ entry.1) (count : Nat) :
    (packed.filter (·.1 < low + count)).Sublist (packed.take count) := by
  induction packed generalizing low count with
  | nil =>
    rw [List.take_nil]
    exact List.nil_sublist _
  | cons entry packed ih =>
    obtain ⟨hfirst, hrest⟩ := List.pairwise_cons.mp h
    have hle := hlow entry List.mem_cons_self
    cases count with
    | zero =>
      have hnone : (entry :: packed).filter (·.1 < low + 0) = [] := by
        apply List.filter_eq_nil_iff.mpr
        intro other hother
        have hother := hlow other hother
        rw [decide_eq_true_eq]
        omega
      rw [hnone]
      exact List.nil_sublist _
    | succ count =>
      have hnext : ∀ other ∈ packed, low + 1 ≤ other.1 := by
        intro other hother
        have hlt := hfirst other hother
        omega
      have hsub := ih hrest hnext count
      rw [Nat.add_right_comm, Nat.add_assoc] at hsub
      rw [List.take_succ_cons, List.filter_cons]
      split_ifs
      · exact hsub.cons_cons entry
      · exact hsub.cons entry

/-- What is written in front of the extranonce keeps to the budget. -/
theorem totalCost_front_le (coinb1Length : Nat) (h : packed.Pairwise fun a b => a.1 < b.1) :
    totalCost ((packed.filter (·.1 < specialCount coinb1Length packed)).map Prod.snd) ≤
      150 - coinb1Length := by
  have hsub := @filter_lt_sublist_take packed h 0 (fun _ _ => Nat.zero_le _)
    (specialCount coinb1Length packed)
  rw [Nat.zero_add] at hsub
  have htake : packed.take (specialCount coinb1Length packed) =
      Budget.takeWithin (fun entry => outputCost entry.2) (150 - coinb1Length) 0 packed :=
    (List.prefix_iff_eq_take.mp (Budget.takeWithin_isFront 0 packed)).symm
  have hcost := @Budget.takeWithin_cost_le _ (fun entry : Nat × DatumTxnOutput =>
    outputCost entry.2) (150 - coinb1Length) 0 packed (Nat.zero_le _)
  rw [htake] at hsub
  have hle := (hsub.map fun entry => outputCost entry.2).sum_le_sum (fun _ _ => Nat.zero_le _)
  rw [totalCost, List.map_map]
  exact hle.trans (by omega)

end Split

section Types

variable {tags : CoinbaseTags} {tmpl : BlockTemplate} {job : CoinbaserJob} {type : Fin 6}
  {input : CoinbaseInput} {extranonce : List UInt8}

/-- Without payouts, every type has room. -/
theorem unpaidSize_le (hpool : job.poolAddrScript.length ≤ 64)
    (hlong : input.bytes.length ≤ 279)
    (htype : type ≠ 0) :
    unpaidSize tmpl.toDatumTemplate job.poolAddrScript.length input.bytes.length type ≤
      coinbaseMaxSize type := by
  have hmax : ∀ type : Fin 6, type ≠ 0 → 500 ≤ coinbaseMaxSize type := by decide
  have hlow := hmax type htype
  obtain ⟨-, hcommitment⟩ := tmpl.witnessCommitment_length
  unfold unpaidSize coinbaseSize hasSpaceForEn
  by_cases hspace : (input.bytes.length ≤ 85 && type ≠ 2) = true
  · rw [if_pos hspace, if_pos hspace]
    simp only [Bool.and_eq_true, decide_eq_true_eq] at hspace
    have hvarint := length_varint_le (show input.bytes.length + 15 < 2 ^ 16 by omega)
    dsimp only
    omega
  · rw [if_neg hspace, if_neg hspace]
    have hvarint := length_varint_le (show input.bytes.length < 2 ^ 16 by omega)
    dsimp only
    omega

theorem coinbase_of_jobOutputs {outputs : List DatumTxnOutput} (houtputs : JobOutputs outputs)
    (htype : type ≠ 0)
    (hinput : generateCoinbaseInput tags tmpl.toDatumTemplate job.carouselSupplierName =
      some input) {set : CoinbaseSet}
    (hset : generateCoinbaseTxns tags (limitedJob tmpl job outputs) = some set) :
    set.coinbase type = typedCoinbase (limitedJob tmpl job outputs) input.bytes type := by
  have hsome : outputs.isEmpty ≠ true := by
    rw [Ne, List.isEmpty_iff]
    exact houtputs.nonempty
  rw [coinbase_of_generate type hinput hset, if_neg (not_or.mpr ⟨hsome, htype⟩)]

/-- The payouts of type 2 in front of the extranonce are within their budget. -/
theorem typedCoinbase_front {outputs : List DatumTxnOutput} (hscripts : ScriptsInRange outputs) :
    ∃ base count payouts,
      (typedCoinbase (limitedJob tmpl job outputs) input.bytes 2).coinb1Bin =
          base ++ varint count ++ payouts.flatMap TxOut.encode ++ extranonceFront job.enPrefix ∧
        (payouts = [] ∨ 2 * (base.length + (payouts.flatMap TxOut.encode).length) ≤ 300) := by
  have hpairs : (chosenOutputs tmpl job input.bytes 2 outputs).Pairwise fun a b => a.1 < b.1 :=
    (packOutputs_pairwise _ 0 0 outputs).2
  have hsmall : ∀ entry ∈ chosenOutputs tmpl job input.bytes 2 outputs,
      entry.2.outputScript.length < 253 := by
    intro entry hentry
    have hmem := (packOutputs_sublist _ _ _ _).subset (List.mem_map_of_mem hentry)
    exact (hscripts entry.2 hmem).2.trans_lt (by decide)
  have hspace : (input.bytes.length ≤ 85 && (2 : Fin 6) ≠ 2) = false := by simp
  generalize hbase : coinb1Base (limitedJob tmpl job outputs) input.bytes false = base
  have hfront := totalCost_front_le base.length hpairs
  rw [← length_flatMap_encode fun entry hentry =>
    hsmall entry (List.mem_filter.mp hentry).1] at hfront
  refine ⟨base, (chosenOutputs tmpl job input.bytes 2 outputs).length + 3,
    ((chosenOutputs tmpl job input.bytes 2 outputs).filter fun entry => entry.1 <
      specialCount base.length (chosenOutputs tmpl job input.bytes 2 outputs)).map
        fun entry => entry.2.toTxOut, ?_, ?_⟩
  · unfold typedCoinbase writeCoinbase
    dsimp only
    rw [hspace, hbase, List.flatMap_map]
    rfl
  · rw [List.flatMap_map]
    by_cases hroom : base.length ≤ 150
    · right
      omega
    · left
      have hnone := List.eq_nil_of_length_eq_zero (Nat.le_zero.mp (hfront.trans (by omega)))
      rw [List.flatMap_eq_nil_iff] at hnone
      rw [List.map_eq_nil_iff, List.eq_nil_iff_forall_not_mem]
      intro entry hentry
      have hlen := congrArg List.length (hnone entry hentry)
      rw [length_encode_txOut (hsmall entry (List.mem_filter.mp hentry).1), List.length_nil] at hlen
      omega

/-- Where all payouts there is room for fit, every coinbase of the type does. -/
theorem withinMaximum_of_countedSuffice (hpool : job.poolAddrScript.length ≤ 64)
    (hinput : generateCoinbaseInput tags tmpl.toDatumTemplate job.carouselSupplierName =
      some input)
    (htype : type ≠ 0)
    (h : CountedSuffice tmpl.toDatumTemplate job.poolAddrScript.length input.bytes.length type) :
    WithinMaximum tags tmpl job type := by
  have hlong := length_generateCoinbaseInput_le hinput
  intro outputs houtputs set hset
  rw [coinbase_of_jobOutputs houtputs htype hinput hset]
  constructor
  · intro extranonce hlen
    rcases typed_le_of_room houtputs.scripts hpool hlong htype hlen with
      hle | ⟨cost, hten, hroom, hle⟩
    · exact hle.trans (unpaidSize_le hpool hlong htype)
    · rw [cbReqSz_eq] at hroom
      exact hle.trans (h cost hten hroom)
  · rintro rfl
    exact typedCoinbase_front houtputs.scripts

/-- Any payouts there is room for can be those of a job. -/
theorem countedSuffice_of_withinMaximum (hpool : job.poolAddrScript.length ≤ 64)
    (hinput : generateCoinbaseInput tags tmpl.toDatumTemplate job.carouselSupplierName =
      some input)
    (htype : type ≠ 0) (h : WithinMaximum tags tmpl job type) :
    CountedSuffice tmpl.toDatumTemplate job.poolAddrScript.length input.bytes.length type := by
  have hfixed := cbReqSz_le hpool (length_generateCoinbaseInput_le hinput) htype
  intro cost hcost hroom
  rw [← cbReqSz_eq] at hroom
  have hfits := (le_fitToTemplate_iff (by omega) (coinbaseMaxSize_le type) hfixed).mpr hroom
  obtain ⟨outputs, houtputs, hne, hcount, hle⟩ := exists_outputs_paidSize_le hpool hcost hfits
  have hjob : JobOutputs outputs := ⟨hne, hcount, houtputs.script_length⟩
  obtain ⟨set, hset⟩ :
      ∃ set, generateCoinbaseTxns tags (limitedJob tmpl job outputs) = some set :=
    ⟨_, congrArg _ hinput⟩
  have hsize := (h outputs hjob set hset).1 zeroExtranonce rfl
  rw [coinbase_of_jobOutputs hjob htype hinput hset] at hsize
  exact hle.trans hsize

end Types

/-- A type respects its maximum exactly where the bytes that are not counted leave it
    enough: the output count, the real length of the witness commitment, and a dead
    output in place of the pool's. -/
theorem withinMaximum_iff {tags : CoinbaseTags} {tmpl : BlockTemplate} {job : CoinbaserJob}
    {input : CoinbaseInput} (hpool : job.poolAddrScript.length ≤ 64)
    (hinput : generateCoinbaseInput tags tmpl.toDatumTemplate job.carouselSupplierName =
      some input) (type : Fin 6) (htype : type ≠ 0) :
    WithinMaximum tags tmpl job type ↔
      CountedSuffice tmpl.toDatumTemplate job.poolAddrScript.length input.bytes.length type :=
  ⟨countedSuffice_of_withinMaximum hpool hinput htype,
    withinMaximum_of_countedSuffice hpool hinput htype⟩

theorem terseCommitment_length :
    38 ≤ (ascii "6a24aa21a9ed" ++ List.replicate 32 48).length ∧
      (ascii "6a24aa21a9ed" ++ List.replicate 32 48).length ≤ 95 := by
  decide

/-- A template whose witness commitment is 16 bytes shorter. -/
def terseTemplate : BlockTemplate :=
  { quietTemplate with
    defaultWitnessCommitment := ascii "6a24aa21a9ed" ++ List.replicate 32 48
    coinbasevalue_ne := sampleValue_ne
    witnessCommitment_length := terseCommitment_length
    headline_length := noHeadline_length
    txnTotalSize_lt := noTransactions_lt }

theorem generateCoinbaseInput_terse :
    generateCoinbaseInput plainTags terseTemplate.toDatumTemplate
      splitCoinbaserJob.carouselSupplierName = some weighingInput := by
  decide +kernel

/-- The 16 bytes are more than the type lacks for any payouts it has room for. -/
theorem terseTemplate_countedSuffice :
    CountedSuffice terseTemplate.toDatumTemplate splitCoinbaserJob.poolAddrScript.length
      weighingInput.bytes.length 1 := by
  intro cost _ hroom
  have hspace : hasSpaceForEn weighingInput.bytes.length 1 = true := by decide
  have hmax := hroom.max
  rw [hspace, if_pos rfl] at hmax
  have hcounted :
      119 + splitCoinbaserJob.poolAddrScript.length + weighingInput.bytes.length = 151 := by
    decide
  have htype : coinbaseMaxSize 1 = 500 := rfl
  have hone : countBytes true cost = 1 := if_neg (by simp; omega)
  have hzero : coinbaseSize terseTemplate.toDatumTemplate
      (max splitCoinbaserJob.poolAddrScript.length 3) weighingInput.bytes.length true 1 0 =
        138 := by
    decide
  rw [paidSize, hspace, hone]
  simp only [coinbaseSize, if_true] at hzero ⊢
  omega

/-- With the usual commitment a type can be too small; with the short one it is not. -/
theorem quietTemplate_withinMaximum_iff :
    (WithinMaximum plainTags quietTemplate splitCoinbaserJob 1 ↔
      CountedSuffice quietTemplate.toDatumTemplate splitCoinbaserJob.poolAddrScript.length
        weighingInput.bytes.length 1) ∧
    WithinMaximum plainTags terseTemplate splitCoinbaserJob 1 :=
  ⟨withinMaximum_iff (by decide) generateCoinbaseInput_quiet 1 (by decide),
    (withinMaximum_iff (by decide) generateCoinbaseInput_terse 1 (by decide)).mpr
      terseTemplate_countedSuffice⟩

/-- Payouts that fill the room of type 1 on a template without transactions: nine of
    the size of P2PKH, and one of that of P2TR. -/
def fillingNicehash : List DatumTxnOutput :=
  List.replicate 9 (fillingOutput 34 1000) ++ [fillingOutput 43 1000]

/-- Its coinbase takes 503 bytes. -/
theorem not_quietTemplate_withinMaximum :
    ¬ WithinMaximum plainTags quietTemplate splitCoinbaserJob 1 := by
  intro hwithin
  have hjob : JobOutputs fillingNicehash := by
    refine ⟨by decide, by decide, ?_⟩
    unfold ScriptsInRange
    decide
  obtain ⟨set, hset⟩ : ∃ set, generateCoinbaseTxns plainTags
      (limitedJob quietTemplate splitCoinbaserJob fillingNicehash) = some set :=
    ⟨_, congrArg _ generateCoinbaseInput_quiet⟩
  have hsize := (hwithin fillingNicehash hjob set hset).1 zeroExtranonce rfl
  rw [coinbase_of_jobOutputs hjob (by decide) generateCoinbaseInput_quiet hset] at hsize
  revert hsize
  decide +kernel

end ChirpGateway
