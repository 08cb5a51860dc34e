import ChirpGateway.Coinbase.Coinbaser

/-!
# Reading a coinbase back

What the network reads out of the bytes the coinbaser writes: the outputs it has
chosen, in order, then the pool's and the witness commitment.
-/

namespace ChirpGateway

open Bytes Wire

/-- The output that carries the extranonce. -/
def extranonceOutput (enPrefix : UInt16) (extranonce : List UInt8) : TxOut where
  value := 0
  script := [0x6a, 0x0e] ++ enPrefixBytes enPrefix ++ extranonce

/-- The output of the witness commitment. -/
def witnessOutput (tmpl : DatumTemplate) : TxOut where
  value := 0
  script := (Hex.decode (tmpl.defaultWitnessCommitment ++ ascii "00000000")).take
    (tmpl.defaultWitnessCommitment.length / 2)

/-- The outputs of a coinbase that pays these. -/
def coinbaseVout (job : CoinbaserJob) (spaceForEn : Bool) (extranonce : List UInt8)
    (outputs : List DatumTxnOutput) : List TxOut :=
  (if spaceForEn then [] else [extranonceOutput job.enPrefix extranonce]) ++
    (outputs.map DatumTxnOutput.toTxOut ++
      [poolOutput job ((outputs.map DatumTxnOutput.valueSats).sum % 2 ^ 64),
        witnessOutput job.blockTemplate])

theorem length_coinbaseVout (job : CoinbaserJob) (spaceForEn : Bool) (extranonce : List UInt8)
    (outputs : List DatumTxnOutput) :
    (coinbaseVout job spaceForEn extranonce outputs).length =
      outputs.length + if spaceForEn then 2 else 3 := by
  cases spaceForEn
  · simp only [coinbaseVout, Bool.false_eq_true, if_false, List.length_append, List.length_map,
      List.length_cons, List.length_nil]
    omega
  · simp only [coinbaseVout, if_true, List.length_append, List.length_map, List.length_cons,
      List.length_nil]
    omega

theorem varint_of_lt {n : Nat} (hn : n < 0xfd) : varint n = [UInt8.ofNat n] := by
  rw [varint, if_pos hn]

/-- The tail is the witness commitment's output and what is read as the lock
    time. -/
theorem coinbaseTail_eq (tmpl : DatumTemplate) :
    ∃ rest, coinbaseTail tmpl = (witnessOutput tmpl).encode ++ rest := by
  obtain ⟨-, hmax⟩ := tmpl.witnessCommitment_length
  have hlen : (witnessOutput tmpl).script.length =
      tmpl.defaultWitnessCommitment.length / 2 := by
    have htext : (ascii "00000000").length = 8 := by decide
    rw [witnessOutput, List.length_take, Hex.length_decode, List.length_append, htext]
    omega
  refine ⟨(Hex.decode (tmpl.defaultWitnessCommitment ++ ascii "00000000")).drop
    (tmpl.defaultWitnessCommitment.length / 2), ?_⟩
  have hvalue : leBytes 8 (witnessOutput tmpl).value = List.replicate 8 0 := leBytes_zero 8
  rw [TxOut.encode, hlen, hvalue, varint_of_lt (by omega), witnessOutput, List.append_assoc,
    List.take_append_drop, List.append_assoc, List.singleton_append, coinbaseTail]

theorem extranonceFront_append {enPrefix : UInt16} {extranonce : List UInt8}
    (hlen : extranonce.length = 12) :
    extranonceFront enPrefix ++ extranonce = (extranonceOutput enPrefix extranonce).encode := by
  have hscript : (extranonceOutput enPrefix extranonce).script.length = 16 := by
    simp [extranonceOutput, enPrefixBytes, hlen]
  have hvalue : leBytes 8 (extranonceOutput enPrefix extranonce).value = List.replicate 8 0 :=
    leBytes_zero 8
  have hsize : varint 16 = [0x10] := by decide
  rw [TxOut.encode, hscript, hvalue, hsize]
  simp only [extranonceFront, extranonceOutput, List.append_assoc, List.cons_append,
    List.nil_append]

/-- The parts of a transaction in front of the output count. -/
theorem cbStart_eq : cbStart =
    [1, 0, 0, 0] ++ (varint 1 ++ (List.replicate 32 0 ++ List.replicate 4 0xff)) := by
  decide

section Layout

variable {job : CoinbaserJob} {input extranonce : List UInt8}
  {packed : List (Nat × DatumTxnOutput)}

theorem flatMap_encode_snd (packed : List (Nat × DatumTxnOutput)) :
    (packed.flatMap fun entry => entry.2.toTxOut.encode) =
      ((packed.map Prod.snd).map DatumTxnOutput.toTxOut).flatMap TxOut.encode := by
  rw [List.map_map, List.flatMap_map]
  rfl

theorem sum_valueSats_snd (packed : List (Nat × DatumTxnOutput)) :
    (packed.map fun entry => entry.2.valueSats).sum =
      ((packed.map Prod.snd).map DatumTxnOutput.valueSats).sum := by
  rw [List.map_map]
  rfl

theorem witnessOutput_fits (tmpl : DatumTemplate) : (witnessOutput tmpl).Fits where
  value_lt := Nat.two_pow_pos 64
  script_lt := by
    obtain ⟨-, hmax⟩ := tmpl.witnessCommitment_length
    rw [witnessOutput]
    refine Nat.lt_of_le_of_lt (List.length_take_le _ _) ?_
    omega

theorem poolOutput_fits (hpool : job.poolAddrScript.length < 2 ^ 64) (paid : Nat) :
    (poolOutput job paid).Fits := by
  have hvalue := job.blockTemplate.coinbasevalue.toNat_lt
  rw [poolOutput]
  split
  · refine ⟨?_, hpool⟩
    simp only [CoinbaserJob.coinbaseValue]
    omega
  · exact ⟨by decide, by simp⟩

theorem extranonceOutput_fits {enPrefix : UInt16} (hlen : extranonce.length = 12) :
    (extranonceOutput enPrefix extranonce).Fits where
  value_lt := Nat.two_pow_pos 64
  script_lt := by simp [extranonceOutput, enPrefixBytes, hlen]

/-- The outputs are read back whatever the extranonce is. -/
theorem readVout_writeCoinbase (hinput : input.length < 2 ^ 63)
    (hpool : job.poolAddrScript.length < 2 ^ 64) (hlen : extranonce.length = 12)
    (hcount : packed.length < 2 ^ 63) (hfits : ∀ entry ∈ packed, entry.2.toTxOut.Fits)
    (spaceForEn : Bool) :
    readVout ((writeCoinbase job (coinb1Base job input spaceForEn) spaceForEn false packed).txn
        extranonce) =
      some (coinbaseVout job spaceForEn extranonce (packed.map Prod.snd)) := by
  obtain ⟨rest, htail⟩ := coinbaseTail_eq job.blockTemplate
  have hvout : ∀ output ∈ coinbaseVout job spaceForEn extranonce (packed.map Prod.snd),
      output.Fits := by
    intro output houtput
    simp only [coinbaseVout, List.mem_append, List.mem_map, List.mem_cons, List.not_mem_nil,
      or_false] at houtput
    rcases houtput with hfront | ⟨_, ⟨entry, hentry, rfl⟩, rfl⟩ | rfl | rfl
    · cases spaceForEn
      · rw [if_neg Bool.false_ne_true, List.mem_singleton] at hfront
        subst hfront
        exact extranonceOutput_fits hlen
      · rw [if_pos rfl] at hfront
        cases hfront
    · exact hfits entry hentry
    · exact poolOutput_fits hpool _
    · exact witnessOutput_fits _
  have hoccurs := length_coinbaseVout job spaceForEn extranonce (packed.map Prod.snd)
  rw [List.length_map] at hoccurs
  have hlt :
      (coinbaseVout job spaceForEn extranonce (packed.map Prod.snd)).length < 2 ^ 64 := by
    rw [hoccurs]
    split <;> omega
  have houtpoint : (List.replicate 32 0 ++ List.replicate 4 (0xff : UInt8)).length = 36 := by
    decide
  have hsequence : coinbaseSequence.length = 4 := by decide
  have hscript : ([14] ++ enPrefixBytes job.enPrefix ++ extranonce).length = 15 := by
    simp [enPrefixBytes, hlen]
  cases spaceForEn
  · -- the extranonce has an output of its own
    have hread := readVout_eq (show ([1, 0, 0, 0] : List UInt8).length = 4 from rfl)
      houtpoint (show input.length < 2 ^ 64 by omega) hsequence hlt hvout rest
    rw [hoccurs] at hread
    rw [← hread]
    apply congrArg
    simp only [coinbaseVout, StratumCoinbase.txn, writeCoinbase, coinb1Base,
      Bool.false_eq_true, if_false, htail, cbStart_eq, flatMap_encode_snd, sum_valueSats_snd,
      List.flatMap_append, List.flatMap_cons, List.flatMap_nil, List.append_nil,
      List.append_assoc, ← extranonceFront_append hlen]
  · -- the extranonce is pushed behind the script
    have hread := readVout_eq (show ([1, 0, 0, 0] : List UInt8).length = 4 from rfl)
      houtpoint (show (input ++ ([14] ++ enPrefixBytes job.enPrefix ++ extranonce)).length < 2 ^ 64
        by rw [List.length_append, hscript]; omega) hsequence hlt hvout rest
    rw [hoccurs, List.length_append, hscript] at hread
    rw [← hread]
    apply congrArg
    simp only [coinbaseVout, StratumCoinbase.txn, writeCoinbase, coinb1Base, if_true,
      Bool.false_eq_true, if_false, htail, cbStart_eq, flatMap_encode_snd, sum_valueSats_snd,
      List.flatMap_append, List.flatMap_cons, List.flatMap_nil, List.append_nil,
      List.append_assoc, List.nil_append, List.cons_append]

end Layout

end ChirpGateway
