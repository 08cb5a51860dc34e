import ChirpGateway.Template.Parser
import Mathlib.Algebra.Ring.Int.Defs

/-!
# Cutting a template

The parser reads the value and the witness commitment of the whole list before it
cuts the list to `maxTemplateTxns` transactions (`datum_blocktemplates.c:282-300`,
`403-446`).
-/

namespace ChirpGateway

open Bytes

variable (commitmentTo : List Json → List UInt8) (subsidy : Nat)

/-- The fees of a list of transactions, as the reply states them. -/
def statedFees (txs : List Json) : Int :=
  (txs.map fun tx => tx.integerAt "fee").sum

/-- A reply whose value is the subsidy and the fees of its transactions, and whose
    commitment is the one to them. -/
structure FairReply (gbt : Json) (txs : List Json) : Prop where
  listed : gbt.arrayAt "transactions" = some txs
  fee_nonneg : ∀ tx ∈ txs, 0 ≤ tx.integerAt "fee"
  value : gbt.integerAt "coinbasevalue" = subsidy + statedFees txs
  /-- jansson holds no greater number -/
  value_lt : gbt.integerAt "coinbasevalue" < 2 ^ 63
  commitment : gbt.stringAt "default_witness_commitment" = some (commitmentTo txs)

/-- The template claims no more than it may, and commits to what it keeps. -/
structure TrueToKept (txs : List Json) (tdata : GbtTemplate) : Prop where
  value : tdata.coinbasevalue.toNat ≤
    subsidy + (tdata.gbtTxns.map fun txn => txn.feeSats.toNat).sum
  commitment : tdata.defaultWitnessCommitment = commitmentTo (txs.take tdata.gbtTxns.length)

/-- Nothing that counts is cut off. -/
def CutsNothing (txs : List Json) : Prop :=
  txs.length ≤ maxTemplateTxns ∨
    (∀ tx ∈ txs.drop maxTemplateTxns, tx.integerAt "fee" = 0) ∧
      commitmentTo (txs.take maxTemplateTxns) = commitmentTo txs

theorem statedFees_append (front back : List Json) :
    statedFees (front ++ back) = statedFees front + statedFees back := by
  unfold statedFees
  rw [List.map_append, List.sum_append]

theorem statedFees_cons (tx : Json) (rest : List Json) :
    statedFees (tx :: rest) = tx.integerAt "fee" + statedFees rest := by
  unfold statedFees
  rw [List.map_cons, List.sum_cons]

theorem statedFees_nonneg {txs : List Json} (hnonneg : ∀ tx ∈ txs, 0 ≤ tx.integerAt "fee") :
    0 ≤ statedFees txs := by
  induction txs with
  | nil => exact Int.le_refl 0
  | cons tx rest ih =>
    have htx := hnonneg tx List.mem_cons_self
    have hrest := ih fun tx htx => hnonneg tx (List.mem_cons_of_mem _ htx)
    rw [statedFees_cons]
    omega

/-- Fees that add up to nothing are nothing each. -/
theorem statedFees_eq_zero_iff {txs : List Json}
    (hnonneg : ∀ tx ∈ txs, 0 ≤ tx.integerAt "fee") :
    statedFees txs = 0 ↔ ∀ tx ∈ txs, tx.integerAt "fee" = 0 := by
  induction txs with
  | nil => simp [statedFees]
  | cons tx rest ih =>
    have htx := hnonneg tx List.mem_cons_self
    have hrest := fun tx htx => hnonneg tx (List.mem_cons_of_mem _ htx)
    have hsum := statedFees_nonneg hrest
    have ih := ih hrest
    rw [statedFees_cons, List.forall_mem_cons, ← ih]
    omega

theorem toNat_ofInt_of_lt {value : Int} (hnonneg : 0 ≤ value) (hlt : value < 2 ^ 64) :
    ((UInt64.ofInt value).toNat : Int) = value := by
  rw [UInt64.ofInt, UInt64.toNat_ofNat']
  omega

/-- The fee of a transaction is read as it is stated. -/
theorem feeSats_of_parseTxn {i : Nat} {tx : Json} {txn : GbtTxn} (h : parseTxn i tx = some txn) :
    txn.feeSats = UInt64.ofInt (tx.integerAt "fee") := by
  obtain ⟨txid, _, h⟩ := Option.bind_eq_some_iff.mp h
  obtain ⟨hash, _, h⟩ := Option.bind_eq_some_iff.mp h
  obtain ⟨data, _, h⟩ := Option.bind_eq_some_iff.mp h
  rw [← Option.some.inj h]

theorem feeSats_sum {txs : List Json} {txns : List GbtTxn}
    (hread : List.Forall₂ (fun tx txn => ∃ i, parseTxn i tx = some txn) txs txns)
    (hnonneg : ∀ tx ∈ txs, 0 ≤ tx.integerAt "fee") (hlt : statedFees txs < 2 ^ 63) :
    (((txns.map fun txn => txn.feeSats.toNat).sum : Nat) : Int) = statedFees txs := by
  induction hread with
  | nil => rfl
  | cons hentry hrest ih =>
    next tx txn txs txns =>
    obtain ⟨i, htxn⟩ := hentry
    have htx := hnonneg tx List.mem_cons_self
    have hlater := fun tx htx => hnonneg tx (List.mem_cons_of_mem _ htx)
    have hsum := statedFees_nonneg hlater
    rw [statedFees_cons] at hlt
    have ih := ih hlater (by omega)
    have hfee : ((txn.feeSats.toNat : Nat) : Int) = tx.integerAt "fee" := by
      rw [feeSats_of_parseTxn htxn]
      exact toNat_ofInt_of_lt htx (by omega)
    rw [List.map_cons, List.sum_cons, statedFees_cons]
    omega

/-- What an accepted template takes over of its reply. -/
structure TakenOver (gbt : Json) (txs : List Json) (tdata : GbtTemplate) : Prop where
  value : tdata.coinbasevalue = UInt64.ofInt (gbt.integerAt "coinbasevalue")
  commitment : gbt.stringAt "default_witness_commitment" = some tdata.defaultWitnessCommitment
  txns : List.Forall₂ (fun tx txn => ∃ i, parseTxn i tx = some txn)
    (txs.take maxTemplateTxns) tdata.gbtTxns

theorem coinbasevalue_of_gbtNumbers {gbt : Json} {numbers : GbtNumbers}
    (h : gbtNumbers gbt = some numbers) :
    numbers.coinbasevalue = UInt64.ofInt (gbt.integerAt "coinbasevalue") := by
  obtain ⟨height, _, h⟩ := Option.bind_eq_some_iff.mp h
  obtain ⟨value, hvalue, h⟩ := Option.bind_eq_some_iff.mp h
  have hstored : value.val = UInt64.ofInt (gbt.integerAt "coinbasevalue") := by
    unfold storedNonzero at hvalue
    split at hvalue
    · rw [← Option.some.inj hvalue]
    · cases hvalue
  obtain ⟨mintime, _, h⟩ := Option.bind_eq_some_iff.mp h
  obtain ⟨sigoplimit, _, h⟩ := Option.bind_eq_some_iff.mp h
  obtain ⟨curtime, _, h⟩ := Option.bind_eq_some_iff.mp h
  obtain ⟨sizelimit, _, h⟩ := Option.bind_eq_some_iff.mp h
  obtain ⟨weightlimit, _, h⟩ := Option.bind_eq_some_iff.mp h
  obtain ⟨version, _, h⟩ := Option.bind_eq_some_iff.mp h
  rw [← Option.some.inj h]
  exact hstored

theorem stringAt_of_textWithin {gbt : Json} {key : String} {low high : Nat}
    {text : { text : List UInt8 // low ≤ text.length ∧ text.length ≤ high }}
    (h : textWithin gbt key low high = some text) : gbt.stringAt key = some text.val := by
  obtain ⟨found, hfound, h⟩ := Option.bind_eq_some_iff.mp h
  split at h
  · rw [hfound, ← Option.some.inj h]
  · cases h

theorem commitment_of_gbtTexts {gbt : Json} {texts : GbtTexts} (h : gbtTexts gbt = some texts) :
    gbt.stringAt "default_witness_commitment" = some texts.defaultWitnessCommitment := by
  obtain ⟨bits, _, h⟩ := Option.bind_eq_some_iff.mp h
  obtain ⟨prevhash, _, h⟩ := Option.bind_eq_some_iff.mp h
  obtain ⟨target, _, h⟩ := Option.bind_eq_some_iff.mp h
  obtain ⟨commitment, hcommitment, h⟩ := Option.bind_eq_some_iff.mp h
  rw [← Option.some.inj h]
  exact stringAt_of_textWithin hcommitment

theorem takenOver_of_gbtParser {cfg : ParserConfig} {gbt : Json} {txs : List Json}
    {tdata : GbtTemplate} (hlisted : gbt.arrayAt "transactions" = some txs)
    (h : gbtParser cfg gbt = some tdata) : TakenOver gbt txs tdata := by
  obtain ⟨numbers, header, version, texts, read, hnumbers, _, htexts, _, rfl⟩ :=
    gbtParser_eq_some_iff.mp h
  obtain rfl : read.txs = txs := Option.some.inj (read.txs_eq.symm.trans hlisted)
  exact ⟨coinbasevalue_of_gbtNumbers hnumbers, commitment_of_gbtTexts htexts,
    forall₂_parseTxns read.txns_eq⟩

variable {commitmentTo subsidy}

section Accepted

variable {cfg : ParserConfig} {gbt : Json} {txs : List Json} {tdata : GbtTemplate}

theorem statedFees_take_add_drop (txs : List Json) (n : Nat) :
    statedFees (txs.take n) + statedFees (txs.drop n) = statedFees txs := by
  rw [← statedFees_append, List.take_append_drop]

/-- The value of an accepted template, next to the fees it keeps and those cut off. -/
theorem coinbasevalue_eq (hfair : FairReply commitmentTo subsidy gbt txs)
    (h : gbtParser cfg gbt = some tdata) :
    (tdata.coinbasevalue.toNat : Int) =
      subsidy + ((tdata.gbtTxns.map fun txn => txn.feeSats.toNat).sum : Nat) +
        statedFees (txs.drop maxTemplateTxns) := by
  have htaken := takenOver_of_gbtParser hfair.listed h
  have hkept : ∀ tx ∈ txs.take maxTemplateTxns, 0 ≤ tx.integerAt "fee" :=
    fun tx htx => hfair.fee_nonneg tx (List.mem_of_mem_take htx)
  have hcut : ∀ tx ∈ txs.drop maxTemplateTxns, 0 ≤ tx.integerAt "fee" :=
    fun tx htx => hfair.fee_nonneg tx (List.mem_of_mem_drop htx)
  have hkeptNonneg := statedFees_nonneg hkept
  have hcutNonneg := statedFees_nonneg hcut
  have hsplit := statedFees_take_add_drop txs maxTemplateTxns
  have hvalue := hfair.value
  have hlt := hfair.value_lt
  rw [feeSats_sum htaken.txns hkept (by omega), htaken.value,
    toNat_ofInt_of_lt (by omega) (by omega)]
  omega

/-- A template that claims no more than it may has cut off no fees. -/
theorem cutFees_eq_zero (hfair : FairReply commitmentTo subsidy gbt txs)
    (h : gbtParser cfg gbt = some tdata) (htrue : TrueToKept commitmentTo subsidy txs tdata) :
    statedFees (txs.drop maxTemplateTxns) = 0 := by
  have hcut := statedFees_nonneg fun tx htx =>
    hfair.fee_nonneg tx (List.mem_of_mem_drop (i := maxTemplateTxns) htx)
  have hvalue := coinbasevalue_eq hfair h
  have hclaimed := htrue.value
  omega

/-- An accepted template is true to what it keeps exactly when nothing that counts
    was cut off. -/
theorem trueToKept_iff (hfair : FairReply commitmentTo subsidy gbt txs)
    (h : gbtParser cfg gbt = some tdata) :
    TrueToKept commitmentTo subsidy txs tdata ↔ CutsNothing commitmentTo txs := by
  have htaken := takenOver_of_gbtParser hfair.listed h
  have hlength : tdata.gbtTxns.length = min maxTemplateTxns txs.length := by
    rw [← htaken.txns.length_eq, List.length_take]
  have htake : txs.take tdata.gbtTxns.length = txs.take maxTemplateTxns := by
    rw [hlength, ← List.take_take, List.take_length]
  have hcommitment : tdata.defaultWitnessCommitment = commitmentTo txs :=
    Option.some.inj (htaken.commitment.symm.trans hfair.commitment)
  have hcut : ∀ tx ∈ txs.drop maxTemplateTxns, 0 ≤ tx.integerAt "fee" :=
    fun tx htx => hfair.fee_nonneg tx (List.mem_of_mem_drop htx)
  constructor
  · intro htrue
    refine .inr ⟨(statedFees_eq_zero_iff hcut).mp (cutFees_eq_zero hfair h htrue), ?_⟩
    rw [← htake, ← htrue.commitment, hcommitment]
  · intro hnothing
    have hboth : statedFees (txs.drop maxTemplateTxns) = 0 ∧
        commitmentTo (txs.take maxTemplateTxns) = commitmentTo txs := by
      rcases hnothing with hshort | ⟨hfree, hsame⟩
      · rw [List.take_of_length_le hshort, List.drop_of_length_le hshort]
        exact ⟨rfl, rfl⟩
      · exact ⟨(statedFees_eq_zero_iff hcut).mpr hfree, hsame⟩
    have hvalue := coinbasevalue_eq hfair h
    refine ⟨by omega, ?_⟩
    rw [htake, hcommitment, hboth.2]

end Accepted

/-! ## A list that is too long -/

/-- A transaction that pays one satoshi. -/
def oneSatTx : Json :=
  .object
    [("txid", .string (List.replicate 64 0x30)), ("hash", .string (List.replicate 64 0x30)),
      ("data", .string (ascii "01")), ("fee", .integer 1), ("weight", .integer 4)]

/-- A commitment that tells lists of different lengths apart. -/
def lengthCommitment (count : Nat) : List UInt8 :=
  ascii "6a24aa21a9ed" ++ Hex.encode (Wire.leBytes 32 count)

/-- A reply with a number of such transactions. -/
def oneSatReply (count : Nat) : Json :=
  .object
    [("height", .integer 1), ("coinbasevalue", .integer (5000000000 + count)),
      ("mintime", .integer 1), ("sigoplimit", .integer 80000), ("curtime", .integer 2),
      ("sizelimit", .integer 4000000), ("weightlimit", .integer 4000000),
      ("version", .integer 0x20000000), ("bits", .string (ascii "1d00ffff")),
      ("previousblockhash", .string (List.replicate 64 0x30)),
      ("target", .string (List.replicate 64 0x30)),
      ("default_witness_commitment", .string (lengthCommitment count)),
      ("transactions", .array (List.replicate count oneSatTx))]

theorem statedFees_oneSat (count : Nat) : statedFees (List.replicate count oneSatTx) = count := by
  induction count with
  | zero => rfl
  | succ count ih =>
    have hfee : oneSatTx.integerAt "fee" = 1 := rfl
    rw [List.replicate_succ, statedFees_cons, ih, hfee]
    push_cast
    omega

theorem fairReply_oneSat {count : Nat} (hcount : count < 2 ^ 32) :
    FairReply (fun txs => lengthCommitment txs.length) 5000000000 (oneSatReply count)
      (List.replicate count oneSatTx) where
  listed := rfl
  fee_nonneg := by
    intro tx htx
    rw [List.eq_of_mem_replicate htx]
    decide
  value := by
    rw [statedFees_oneSat]
    rfl
  value_lt := by
    show (5000000000 : Int) + count < 2 ^ 63
    omega
  commitment := by
    rw [List.length_replicate]
    rfl

theorem parseTxn_oneSat (i : Nat) : ∃ txn, parseTxn i oneSatTx = some txn ∧ txn.room = 6 :=
  ⟨_, rfl, rfl⟩

theorem parseTxns_oneSat (count : Nat) : ∀ i offset, offset + 6 * count < localDataSize →
    ∃ txns, parseTxns i offset (List.replicate count oneSatTx) = some txns := by
  induction count with
  | zero => exact fun _ _ _ => ⟨[], rfl⟩
  | succ count ih =>
    intro i offset hroom
    obtain ⟨txn, htxn, hsize⟩ := parseTxn_oneSat i
    obtain ⟨later, hlater⟩ := ih (i + 1) (offset + txn.room) (by omega)
    exact ⟨txn :: later, parseTxns_cons_eq_some_iff.mpr
      ⟨txn, later, htxn, by omega, hlater, rfl⟩⟩

theorem gbtParser_oneSat {count : Nat} (hcount : count ≤ 20000)
    (hnumbers : (gbtNumbers (oneSatReply count)).isSome = true)
    (htexts : (gbtTexts (oneSatReply count)).isSome = true) :
    ∃ tdata, gbtParser blake2bParser (oneSatReply count) = some tdata := by
  obtain ⟨numbers, hnumbers⟩ := Option.isSome_iff_exists.mp hnumbers
  obtain ⟨texts, htexts⟩ := Option.isSome_iff_exists.mp htexts
  obtain ⟨⟨header, version⟩, hheader⟩ :
      ∃ header, gbtHeader blake2bParser (oneSatReply count) numbers.version = some header :=
    ⟨_, rfl⟩
  have hsize : localDataSize = 18194304 := rfl
  obtain ⟨txns, htxns⟩ := parseTxns_oneSat (min maxTemplateTxns count) 0
    (templateTxnBytes * count) (by rw [hsize, templateTxnBytes, maxTemplateTxns]; omega)
  have hread : readTxns (List.replicate count oneSatTx) = some txns := by
    unfold readTxns
    rw [List.take_replicate, List.length_replicate]
    exact htxns
  obtain ⟨read, hread⟩ : ∃ read, gbtTxnsOf (oneSatReply count) = some read :=
    gbtTxnsOf_of_readTxns rfl hread
  exact ⟨_, gbtParser_eq_some_iff.mpr
    ⟨numbers, header, version, texts, read, hnumbers, hheader, htexts, hread, rfl⟩⟩

/-- One transaction more than is taken: its fee is claimed all the same. -/
theorem oneSatReply_notTrue : ∃ tdata,
    gbtParser blake2bParser (oneSatReply 16384) = some tdata ∧
      FairReply (fun txs => lengthCommitment txs.length) 5000000000 (oneSatReply 16384)
        (List.replicate 16384 oneSatTx) ∧
      ¬ TrueToKept (fun txs => lengthCommitment txs.length) 5000000000
        (List.replicate 16384 oneSatTx) tdata := by
  obtain ⟨tdata, hparse⟩ :
      ∃ tdata, gbtParser blake2bParser (oneSatReply 16384) = some tdata :=
    gbtParser_oneSat (by decide) (by decide +kernel) (by decide +kernel)
  have hfair : FairReply (fun txs => lengthCommitment txs.length) 5000000000 (oneSatReply 16384)
      (List.replicate 16384 oneSatTx) := fairReply_oneSat (by decide)
  refine ⟨tdata, hparse, hfair, fun htrue => ?_⟩
  have hcut := cutFees_eq_zero hfair hparse htrue
  rw [List.drop_replicate, statedFees_oneSat] at hcut
  exact absurd hcut (by decide)

/-- A reply with one transaction is kept whole. -/
theorem trueToKept_oneSat : ∃ tdata, gbtParser blake2bParser (oneSatReply 1) = some tdata ∧
    TrueToKept (fun txs => lengthCommitment txs.length) 5000000000 [oneSatTx] tdata := by
  obtain ⟨tdata, hparse⟩ : ∃ tdata, gbtParser blake2bParser (oneSatReply 1) = some tdata :=
    gbtParser_oneSat (by decide) (by decide +kernel) (by decide +kernel)
  have hfair : FairReply (fun txs => lengthCommitment txs.length) 5000000000 (oneSatReply 1)
      [oneSatTx] := fairReply_oneSat (by decide)
  exact ⟨tdata, hparse, (trueToKept_iff hfair hparse).mpr (.inl (by decide))⟩

end ChirpGateway
