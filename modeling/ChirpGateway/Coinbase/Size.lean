import ChirpGateway.Coinbase.Shared

/-!
# The size of a coinbase

What a shared coinbase takes in bytes, and which sizes of outputs the packing loop
can come to (`datum_coinbaser.c:208-336`).
-/

namespace ChirpGateway

open Bytes Wire

/-- The bytes of a coinbase on a template: a script of the pool's and an input of so
    many bytes, and outputs that are counted with `cost` and whose number takes
    `countBytes`. -/
def coinbaseSize (tmpl : DatumTemplate) (poolScript input : Nat) (spaceForEn : Bool)
    (countBytes cost : Nat) : Nat :=
  let script := if spaceForEn then input + 15 else input
  -- version, input and sequence
  41 + (varint script).length + script + 4 +
    -- outputs, with the one of an extranonce that has no space in the script
    countBytes + (if spaceForEn then 0 else 25) + cost + (9 + poolScript) +
    -- witness commitment and lock time
    (9 + (tmpl.defaultWitnessCommitment.length + 1) / 2) + 4

section Size

variable {job : CoinbaserJob} {input extranonce : List UInt8}
  {packed : List (Nat × DatumTxnOutput)}

theorem length_varint_of_lt {n : Nat} (hn : n < 253) : (varint n).length = 1 := by
  rw [varint_of_lt hn]
  rfl

theorem length_varint_le {n : Nat} (hn : n < 2 ^ 16) : (varint n).length ≤ 3 := by
  unfold varint
  split_ifs
  · simp
  · simp
  · omega
  · omega

theorem length_encode_txOut {output : TxOut} (h : output.script.length < 253) :
    output.encode.length = 9 + output.script.length := by
  rw [TxOut.encode, varint_of_lt h]
  simp only [List.length_append, length_leBytes, List.length_cons, List.length_nil]

/-- Outputs are counted with what they take. -/
theorem length_flatMap_encode (hscripts : ∀ entry ∈ packed, entry.2.outputScript.length < 253) :
    (packed.flatMap fun entry => entry.2.toTxOut.encode).length =
      totalCost (packed.map Prod.snd) := by
  induction packed with
  | nil => rfl
  | cons entry packed ih =>
    have hfirst : entry.2.toTxOut.script.length < 253 := hscripts entry List.mem_cons_self
    rw [List.flatMap_cons, List.length_append, length_encode_txOut hfirst, List.map_cons,
      totalCost_cons, ih fun other hother => hscripts other (List.mem_cons_of_mem _ hother)]
    show 9 + entry.2.outputScript.length + _ = outputCost entry.2 + _
    rw [outputCost, Nat.add_comm 9]

/-- Outputs on both sides of the extranonce are counted once. -/
theorem totalCost_filter_add (place : Nat) :
    totalCost ((packed.filter (·.1 < place)).map Prod.snd) +
      totalCost ((packed.filter (place ≤ ·.1)).map Prod.snd) =
        totalCost (packed.map Prod.snd) := by
  induction packed with
  | nil => rfl
  | cons entry packed ih =>
    by_cases hfirst : entry.1 < place
    · have hsecond : ¬ place ≤ entry.1 := Nat.not_le.mpr hfirst
      simp only [List.filter_cons, hfirst, hsecond, decide_true, decide_false, if_true,
        Bool.false_eq_true, if_false, List.map_cons, totalCost_cons]
      omega
    · have hsecond : place ≤ entry.1 := Nat.not_lt.mp hfirst
      simp only [List.filter_cons, hfirst, hsecond, decide_true, decide_false, if_true,
        Bool.false_eq_true, if_false, List.map_cons, totalCost_cons]
      omega

theorem length_coinbaseTail (tmpl : DatumTemplate) :
    (coinbaseTail tmpl).length = 9 + (tmpl.defaultWitnessCommitment.length + 1) / 2 + 4 := by
  simp only [coinbaseTail, List.length_append, List.length_replicate, List.length_cons,
    Hex.length_decode, ascii, List.length_map]
  have height : "00000000".toList.length = 8 := rfl
  omega

/-- The number of outputs that is written with so many chosen. -/
def outputCount (spaceForEn : Bool) (chosen : Nat) : Nat := chosen + if spaceForEn then 2 else 3

theorem length_txn_writeCoinbase {spaceForEn special : Bool} {poolScript : Nat}
    (hspace : spaceForEn = true → special = false)
    (hscripts : ∀ entry ∈ packed, entry.2.outputScript.length < 253)
    (hpool : (poolOutput job
      ((packed.map fun entry => entry.2.valueSats).sum % 2 ^ 64)).script.length = poolScript)
    (hpoolLt : poolScript < 253) (hlen : extranonce.length = 12) :
    ((writeCoinbase job (coinb1Base job input spaceForEn) spaceForEn special packed).txn
        extranonce).length =
      coinbaseSize job.blockTemplate poolScript input.length spaceForEn
        (varint (outputCount spaceForEn packed.length)).length
        (totalCost (packed.map Prod.snd)) := by
  have hpoolLen := length_encode_txOut (hpool.trans_lt hpoolLt)
  rw [hpool] at hpoolLen
  have hfilter {keep : Nat × DatumTxnOutput → Bool} :
      ∀ entry ∈ packed.filter keep, entry.2.outputScript.length < 253 := by
    intro entry hentry
    exact hscripts entry (List.mem_filter.mp hentry).1
  have hstarts : (enPrefixBytes job.enPrefix).length = 2 := rfl
  have hstart : cbStart.length = 41 := rfl
  have hsequence : coinbaseSequence.length = 4 := rfl
  cases spaceForEn with
  | true =>
    rw [hspace rfl]
    simp only [StratumCoinbase.txn, writeCoinbase, coinb1Base, coinbaseSize, outputCount, if_true,
      Bool.false_eq_true, if_false, List.length_append, List.length_cons, length_coinbaseTail,
      length_flatMap_encode hscripts, hpoolLen, hstarts, hstart, hsequence, hlen]
    omega
  | false =>
    cases special with
    | false =>
      simp only [StratumCoinbase.txn, writeCoinbase, coinb1Base, coinbaseSize, outputCount,
        extranonceFront, List.flatMap_nil, List.length_nil, Bool.false_eq_true, if_false,
        List.length_append, List.length_cons, List.length_replicate, length_coinbaseTail,
        length_flatMap_encode hscripts, hpoolLen, hstarts, hstart, hsequence, hlen]
      omega
    | true =>
      have hsplit := @totalCost_filter_add packed
        (specialCount (coinb1Base job input false).length packed)
      simp only [coinb1Base, Bool.false_eq_true, if_false] at hsplit
      simp only [StratumCoinbase.txn, writeCoinbase, coinb1Base, coinbaseSize, outputCount,
        extranonceFront, Bool.false_eq_true, if_false, if_true, List.length_append,
        List.length_cons, List.length_nil, List.length_replicate, length_coinbaseTail,
        length_flatMap_encode hfilter, hpoolLen, hstarts, hstart, hsequence, hlen] at hsplit ⊢
      omega

end Size

/-! ## What can be chosen -/

section Reach

variable {coinbaseValue : Nat}

/-- The loop goes on only while there is room for 30 bytes, so that many outputs are
    only chosen where there was room for them. -/
theorem length_packOutputs_le {room : Int} {outputs : List DatumTxnOutput}
    (hcost : ∀ output ∈ outputs, 10 ≤ outputCost output) (mval k : Nat)
    (hmany : 2 ≤ (packOutputs coinbaseValue room mval k outputs).length) :
    10 * ((packOutputs coinbaseValue room mval k outputs).length - 1 : Int) + 30 ≤ room := by
  induction outputs generalizing room mval k with
  | nil => cases hmany
  | cons output outputs ih =>
    have hfirst := hcost output List.mem_cons_self
    have hrest (other : DatumTxnOutput) (hother : other ∈ outputs) : 10 ≤ outputCost other :=
      hcost other (List.mem_cons_of_mem _ hother)
    simp only [packOutputs] at hmany ⊢
    split_ifs at hmany ⊢ with hfits hstop hfull
    · simp at hmany
    · simp at hmany
    · have hle := @ih (room - outputCost output) hrest ((mval + output.valueSats) % 2 ^ 64) (k + 1)
      generalize packOutputs coinbaseValue (room - outputCost output)
        ((mval + output.valueSats) % 2 ^ 64) (k + 1) outputs = chosen at hle hmany ⊢
      rw [List.length_cons] at hmany ⊢
      by_cases hmore : 2 ≤ chosen.length
      · have hroom := hle hmore
        omega
      · omega
    · exact ih hrest mval (k + 1) hmany

/-- Outputs without a value are all chosen, and one more behind them. -/
theorem packOutputs_zeros {room : Int} {zeros : List DatumTxnOutput} {last : DatumTxnOutput}
    (k : Nat) (hvalue : coinbaseValue < 2 ^ 64) (hpos : 0 < coinbaseValue)
    (hzeros : ∀ output ∈ zeros, output.valueSats = 0) (hlast : last.valueSats ≤ coinbaseValue)
    (hroom : (totalCost zeros + outputCost last : Int) ≤ room)
    (hend : zeros ≠ [] → 30 ≤ outputCost last) :
    (packOutputs coinbaseValue room 0 k (zeros ++ [last])).map Prod.snd = zeros ++ [last] := by
  induction zeros generalizing room k with
  | nil =>
    have hnil : (totalCost [] : Int) = 0 := rfl
    rw [hnil] at hroom
    have hmod : (0 + last.valueSats) % 2 ^ 64 = last.valueSats := by
      rw [Nat.zero_add]
      exact Nat.mod_eq_of_lt (hlast.trans_lt hvalue)
    simp only [List.nil_append, packOutputs, hmod]
    rw [if_pos ⟨by omega, hlast⟩]
    split_ifs <;> rfl
  | cons output zeros ih =>
    have hzero := hzeros output List.mem_cons_self
    have hthirty := hend (List.cons_ne_nil _ _)
    rw [totalCost_cons, Nat.cast_add] at hroom
    simp only [List.cons_append, packOutputs, hzero, Nat.add_zero, Nat.zero_mod]
    rw [if_pos ⟨by omega, Nat.zero_le _⟩, if_neg (by omega), if_neg (by omega), List.map_cons]
    apply congrArg
    apply ih
    · intro other hother
      exact hzeros other (List.mem_cons_of_mem _ hother)
    · omega
    · intro _
      exact hthirty

end Reach

/-- An output that is counted with `cost`. -/
def fillingOutput (cost value : Nat) : DatumTxnOutput where
  outputScript := List.replicate (cost - 9) 0
  valueSats := value

theorem outputCost_fillingOutput {cost : Nat} (hcost : 9 ≤ cost) (value : Nat) :
    outputCost (fillingOutput cost value) = cost := by
  rw [outputCost, fillingOutput, List.length_replicate, Nat.sub_add_cancel hcost]

theorem totalCost_replicate {cost : Nat} (hcost : 9 ≤ cost) (n value : Nat) :
    totalCost (List.replicate n (fillingOutput cost value)) = n * cost := by
  rw [totalCost, List.map_replicate, outputCost_fillingOutput hcost,
    List.sum_replicate_nat]

/-- Outputs that take so many bytes together, the last with a value: small ones, as
    many as are asked for, then the largest there are, and what is left. -/
theorem exists_fillingOutputs {cost small : Nat} (value : Nat) (hcost : 10 ≤ cost)
    (hsmall : small = 0 ∨ 10 * small + 30 ≤ cost) :
    ∃ zeros last, (∀ output ∈ zeros, output.valueSats = 0) ∧ last.valueSats = value ∧
      totalCost zeros + outputCost last = cost ∧ (zeros ≠ [] → 30 ≤ outputCost last) ∧
      small ≤ zeros.length ∧ zeros.length ≤ small + cost / 73 + 1 ∧
      ∀ output ∈ zeros ++ [last],
        1 ≤ output.outputScript.length ∧ output.outputScript.length ≤ 64 := by
  obtain ⟨large, middle, rest, hsum, hlow, hhigh, hcount, hlarge⟩ : ∃ large middle rest,
      10 * small + 73 * large + 43 * middle + rest = cost ∧ 10 ≤ rest ∧ rest ≤ 73 ∧
        large + middle ≤ cost / 73 + 1 ∧
        (small ≠ 0 ∨ large ≠ 0 ∨ middle ≠ 0 → 30 ≤ rest) := by
    obtain ⟨large, left, hleft, hlow, hhigh, hmore⟩ : ∃ large left,
        10 * small + 73 * large + left = cost ∧ 10 ≤ left ∧ left ≤ 103 ∧
          (small ≠ 0 ∨ large ≠ 0 → 30 ≤ left) :=
      ⟨(cost - 10 * small - 31) / 73, cost - 10 * small - 73 * ((cost - 10 * small - 31) / 73),
        by omega, by omega, by omega, by omega⟩
    by_cases hone : left ≤ 73
    · exact ⟨large, 0, left, by omega, hlow, hone, by omega, by omega⟩
    · exact ⟨large, 1, left - 43, by omega, by omega, by omega, by omega, by omega⟩
  have hten : 9 ≤ 10 := by decide
  have hmiddle : 9 ≤ 43 := by decide
  have hmany : 9 ≤ 73 := by decide
  refine ⟨List.replicate small (fillingOutput 10 0) ++
      (List.replicate large (fillingOutput 73 0) ++ List.replicate middle (fillingOutput 43 0)),
    fillingOutput rest value, ?_, rfl, ?_, ?_, ?_, ?_, ?_⟩
  · intro output houtput
    simp only [List.mem_append] at houtput
    rcases houtput with hmem | hmem | hmem
    · rw [List.eq_of_mem_replicate hmem]
      rfl
    · rw [List.eq_of_mem_replicate hmem]
      rfl
    · rw [List.eq_of_mem_replicate hmem]
      rfl
  · rw [totalCost_append, totalCost_append, totalCost_replicate hten, totalCost_replicate hmany,
      totalCost_replicate hmiddle, outputCost_fillingOutput (by omega)]
    omega
  · intro hne
    rw [outputCost_fillingOutput (by omega)]
    apply hlarge
    by_contra hnone
    simp only [not_or, not_not] at hnone
    rw [hnone.1, hnone.2.1, hnone.2.2] at hne
    exact hne rfl
  · rw [List.length_append, List.length_replicate]
    exact Nat.le_add_right _ _
  · simp only [List.length_append, List.length_replicate]
    omega
  · intro output houtput
    simp only [List.mem_append, List.mem_singleton] at houtput
    rcases houtput with (hmem | hmem | hmem) | hlast
    · rw [List.eq_of_mem_replicate hmem]
      exact ⟨by decide, by decide⟩
    · rw [List.eq_of_mem_replicate hmem]
      exact ⟨by decide, by decide⟩
    · rw [List.eq_of_mem_replicate hmem]
      exact ⟨by decide, by decide⟩
    · rw [hlast, fillingOutput, List.length_replicate]
      omega

end ChirpGateway
