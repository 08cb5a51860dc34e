import ChirpGateway.Lib.Bytes
import ChirpGateway.Rpc.Json
import Mathlib.Data.Int.ModEq
import Mathlib.Data.List.Forall2

/-!
# Taking over a supplier's transactions

`datum_template_swap_from` (`datum_blocktemplates.c:521-590`) puts the
transactions of a supplier's template into the node's reply, with the value and
the witness commitment that go with them.
-/

namespace ChirpGateway

open Bytes

/-- `strtoull(text, NULL, 10)`. -/
def strtoull (text : List UInt8) : UInt64 :=
  let body := text.dropWhile isSpace
  let (negative, digits) :=
    match body with
    | 0x2d :: rest => (true, rest)
    | 0x2b :: rest => (false, rest)
    | _ => (false, body)
  let value := (digits.takeWhile isDigit).foldl (fun acc digit => 10 * acc + (digit.toNat - 48)) 0
  if 2 ^ 64 ≤ value then UInt64.ofNat (2 ^ 64 - 1)
  else if negative then -UInt64.ofNat value
  else UInt64.ofNat value

/-- `datum_json_u64`. -/
def jsonU64 : Option Json → UInt64
  | some (.integer value) => UInt64.ofInt value
  | some (.string text) => strtoull text
  | _ => 0

/-- What the swap reads as the fee of a transaction. -/
def txFee (tx : Json) : UInt64 :=
  jsonU64 (tx.objectGet "fee")

/-- Fees added up in 64 bits. -/
def feeSum (txs : List Json) : UInt64 :=
  txs.foldl (fun fees tx => fees + txFee tx) 0

/-- `our_fees`. -/
def ourFees (resVal : Json) : UInt64 :=
  feeSum ((resVal.arrayAt "transactions").getD [])

/-- `subsidy`. -/
def ourSubsidy (resVal : Json) : UInt64 :=
  let ourCbv := jsonU64 (resVal.objectGet "coinbasevalue")
  if ourCbv ≥ ourFees resVal then ourCbv - ourFees resVal else ourCbv

/-- The entry `nt` made from one of the supplier's, which is passed over when it
    has no `txid` or no `data`. -/
def installedTx (tx : Json) : Option Json := do
  let txid ← tx.stringAt "txid"
  let data ← tx.stringAt "data"
  some (.object
    [("data", .string data),
      ("txid", .string txid),
      -- the wtxid is not consensus when mining alone
      ("hash", .string txid),
      ("fee", .ofUInt64 (txFee tx).toNat),
      ("weight", .ofUInt64 (jsonU64 (tx.objectGet "weight")).toNat),
      ("sigops", .integer 0)])

/-- `subsidy + sup_fees`, of the entries that are kept. -/
def swappedValue (resVal : Json) (supTxs : List Json) : UInt64 :=
  ourSubsidy resVal + feeSum (supTxs.filter fun tx => (installedTx tx).isSome)

/-- `sup_wc`, set where the supplier has one. -/
def swapCommitment (resVal sup : Json) : Json :=
  match sup.stringAt "default_witness_commitment" with
  | some supWc => resVal.objectSet "default_witness_commitment" (.string supWc)
  | none => resVal

/-- `datum_template_swap_from`: whether the supplier's transactions were taken,
    and the node's reply afterwards. -/
def swapFrom (resVal sup : Json) (ourPh : Option (List UInt8)) : Bool × Json :=
  match ourPh, sup.stringAt "previousblockhash", sup.arrayAt "transactions" with
  | some ph, some supPh, some supTxs =>
    if ph = supPh then
      (true, ((swapCommitment resVal sup).objectSet "coinbasevalue"
        (.ofUInt64 (swappedValue resVal supTxs).toNat)).objectSet "transactions"
          (.array (supTxs.filterMap installedTx)))
    else
      (false, resVal)
  | _, _, _ => (false, resVal)

/-- `apply_supplier` takes `our_ph` from the reply it changes. -/
def swap (resVal sup : Json) : Bool × Json :=
  swapFrom resVal sup (resVal.stringAt "previousblockhash")

/-- The supplier's document is at the node's tip and lists transactions. -/
def Applies (resVal sup : Json) (supTxs : List Json) : Prop :=
  ∃ ph, resVal.stringAt "previousblockhash" = some ph ∧
    sup.stringAt "previousblockhash" = some ph ∧ sup.arrayAt "transactions" = some supTxs

section Numbers

/-! ## The numbers of the documents -/

/-- The number a field stands for, signed as jansson keeps it. -/
def satoshis (value : Option Json) : Int :=
  ((jsonU64 value).toNat : Int).bmod (2 ^ 64)

/-- The fees of a list of transactions, added up without a bound. -/
def feeTotal : List Json → Int
  | [] => 0
  | tx :: rest => satoshis (tx.objectGet "fee") + feeTotal rest

theorem bmod_modEq (a : Int) : a.bmod (2 ^ 64) ≡ a [ZMOD 2 ^ 64] :=
  Int.bmod_emod

theorem toNat_ofInt_modEq (a : Int) : ((UInt64.ofInt a).toNat : Int) ≡ a [ZMOD 2 ^ 64] := by
  show ((UInt64.ofInt a).toNat : Int) % 2 ^ 64 = a % 2 ^ 64
  have hnonneg : 0 ≤ a % 2 ^ 64 := Int.emod_nonneg _ (by decide)
  have hlt : a % 2 ^ 64 < 2 ^ 64 := Int.emod_lt_of_pos _ (by decide)
  rw [UInt64.ofInt, UInt64.toNat_ofNat']
  omega

/-- Of what jansson can hold, an integer stands for itself. -/
theorem satoshis_integer {value : Int} (hlow : -2 ^ 63 ≤ value) (hhigh : value < 2 ^ 63) :
    satoshis (some (.integer value)) = value := by
  have hmod : satoshis (some (.integer value)) ≡ value [ZMOD 2 ^ 64] :=
    (bmod_modEq _).trans (toNat_ofInt_modEq value)
  have hle : -((2 : Int) ^ 64 / 2) ≤ satoshis (some (.integer value)) :=
    Int.le_bmod (by decide)
  have hlt : satoshis (some (.integer value)) < ((2 : Int) ^ 64 + 1) / 2 :=
    Int.bmod_lt (by decide)
  have hemod : satoshis (some (.integer value)) % 2 ^ 64 = value % 2 ^ 64 := hmod
  omega

theorem satoshis_modEq (value : Option Json) :
    satoshis value ≡ ((jsonU64 value).toNat : Int) [ZMOD 2 ^ 64] :=
  bmod_modEq _

theorem foldl_fee_modEq (fees : UInt64) (txs : List Json) :
    ((txs.foldl (fun fees tx => fees + txFee tx) fees).toNat : Int) ≡
      fees.toNat + feeTotal txs [ZMOD 2 ^ 64] := by
  induction txs generalizing fees with
  | nil => simp [feeTotal]
  | cons tx rest ih =>
    have hfee : ((txFee tx).toNat : Int) ≡ satoshis (tx.objectGet "fee") [ZMOD 2 ^ 64] :=
      (satoshis_modEq _).symm
    have hadd : ((fees + txFee tx).toNat : Int) ≡ fees.toNat + (txFee tx).toNat
        [ZMOD 2 ^ 64] := by
      rw [UInt64.toNat_add]
      push_cast
      exact Int.mod_modEq _ _
    rw [List.foldl_cons, feeTotal, ← add_assoc]
    exact (ih _).trans ((hadd.trans (hfee.add_left _)).add_right _)

/-- The sum the code makes in 64 bits is the fees' own, up to a multiple of 2⁶⁴. -/
theorem feeSum_modEq (txs : List Json) :
    ((feeSum txs).toNat : Int) ≡ feeTotal txs [ZMOD 2 ^ 64] := by
  have h := foldl_fee_modEq 0 txs
  rwa [UInt64.toNat_zero, Nat.cast_zero, zero_add] at h

/-- A stored number is read back as what it stands for. -/
theorem satoshis_ofUInt64 (value : Nat) :
    satoshis (some (.ofUInt64 value)) = (value : Int).bmod (2 ^ 64) := by
  have hle : -((2 : Int) ^ 64 / 2) ≤ (value : Int).bmod (2 ^ 64) := Int.le_bmod (by decide)
  have hlt : (value : Int).bmod (2 ^ 64) < ((2 : Int) ^ 64 + 1) / 2 := Int.bmod_lt (by decide)
  exact satoshis_integer (by omega) (by omega)

end Numbers

section Swap

/-! ## What a swap does -/

variable {resVal sup : Json} {supTxs : List Json}

/-- What is read from the reply after a swap that was taken. -/
structure SwapResult (resVal sup : Json) (supTxs : List Json) (resVal' : Json) : Prop where
  transactions : resVal'.arrayAt "transactions" = some (supTxs.filterMap installedTx)
  commitment : resVal'.stringAt "default_witness_commitment" =
    (sup.stringAt "default_witness_commitment").or
      (resVal.stringAt "default_witness_commitment")
  value : resVal'.objectGet "coinbasevalue" =
    some (.ofUInt64 (swappedValue resVal supTxs).toNat)
  others : ∀ name, name ≠ "transactions" → name ≠ "default_witness_commitment" →
    name ≠ "coinbasevalue" → resVal'.objectGet name = resVal.objectGet name

theorem swapCommitment_isObject (hobj : ∃ members, resVal = .object members) :
    ∃ members, swapCommitment resVal sup = .object members := by
  unfold swapCommitment
  cases sup.stringAt "default_witness_commitment" with
  | some supWc => exact Json.objectSet_isObject hobj _ _
  | none => exact hobj

theorem stringAt_swapCommitment (hobj : ∃ members, resVal = .object members) :
    (swapCommitment resVal sup).stringAt "default_witness_commitment" =
      (sup.stringAt "default_witness_commitment").or
        (resVal.stringAt "default_witness_commitment") := by
  unfold swapCommitment
  cases sup.stringAt "default_witness_commitment" with
  | some supWc =>
    rw [Json.stringAt, Json.objectGet_objectSet_self hobj]
    rfl
  | none => rfl

theorem objectGet_swapCommitment {name : String} (hname : name ≠ "default_witness_commitment") :
    (swapCommitment resVal sup).objectGet name = resVal.objectGet name := by
  unfold swapCommitment
  cases sup.stringAt "default_witness_commitment" with
  | some supWc => exact Json.objectGet_objectSet_of_ne _ _ hname
  | none => rfl

theorem swap_of_applies (happlies : Applies resVal sup supTxs) :
    ∃ resVal', swap resVal sup = (true, resVal') ∧ SwapResult resVal sup supTxs resVal' := by
  obtain ⟨ph, hour, hsup, htxs⟩ := happlies
  have hobj : ∃ members, resVal = .object members := by
    obtain ⟨member, hmember, _⟩ := Option.bind_eq_some_iff.mp hour
    exact Json.isObject_of_objectGet hmember
  have hobj₁ : ∃ members, swapCommitment resVal sup = .object members :=
    swapCommitment_isObject hobj
  have hobj₂ := Json.objectSet_isObject hobj₁ "coinbasevalue"
    (.ofUInt64 (swappedValue resVal supTxs).toNat)
  unfold swap swapFrom
  rw [hour, hsup, htxs]
  dsimp only
  rw [if_pos rfl]
  refine ⟨_, rfl, ?_, ?_, ?_, ?_⟩
  · rw [Json.arrayAt, Json.objectGet_objectSet_self hobj₂]
    rfl
  · rw [Json.stringAt, Json.objectGet_objectSet_of_ne _ _ (by decide),
      Json.objectGet_objectSet_of_ne _ _ (by decide)]
    exact stringAt_swapCommitment hobj
  · rw [Json.objectGet_objectSet_of_ne _ _ (by decide), Json.objectGet_objectSet_self hobj₁]
  · intro name htransactions hcommitment hvalue
    rw [Json.objectGet_objectSet_of_ne _ _ htransactions,
      Json.objectGet_objectSet_of_ne _ _ hvalue, objectGet_swapCommitment hcommitment]

theorem swap_of_not_applies (hnot : ∀ supTxs, ¬ Applies resVal sup supTxs) :
    swap resVal sup = (false, resVal) := by
  unfold swap swapFrom
  cases hour : resVal.stringAt "previousblockhash" with
  | none => rfl
  | some ph =>
    cases hsup : sup.stringAt "previousblockhash" with
    | none => rfl
    | some supPh =>
      cases htxs : sup.arrayAt "transactions" with
      | none => rfl
      | some supTxs =>
        have hne : ph ≠ supPh := by
          intro heq
          exact hnot supTxs ⟨ph, hour, heq ▸ hsup, htxs⟩
        exact if_neg hne

/-! ## All or nothing -/

/-- An installed entry says what the supplier's says. -/
structure CarriedOver (tx newTx : Json) : Prop where
  txid : ∃ txid, tx.stringAt "txid" = some txid ∧ newTx.stringAt "txid" = some txid
  data : ∃ data, tx.stringAt "data" = some data ∧ newTx.stringAt "data" = some data
  fee : satoshis (newTx.objectGet "fee") = satoshis (tx.objectGet "fee")
  weight : satoshis (newTx.objectGet "weight") = satoshis (tx.objectGet "weight")

/-- The node's reply after the swap is the supplier's list as a whole, with its
    commitment and the value that belongs to it. -/
structure SwappedWhole (resVal sup resVal' : Json) : Prop where
  transactions : ∃ supTxs newTxs, sup.arrayAt "transactions" = some supTxs ∧
    resVal'.arrayAt "transactions" = some newTxs ∧ List.Forall₂ CarriedOver supTxs newTxs
  commitment : ∃ supWc, sup.stringAt "default_witness_commitment" = some supWc ∧
    resVal'.stringAt "default_witness_commitment" = some supWc
  value : satoshis (resVal'.objectGet "coinbasevalue") =
    satoshis (resVal.objectGet "coinbasevalue") -
      feeTotal ((resVal.arrayAt "transactions").getD []) +
      feeTotal ((resVal'.arrayAt "transactions").getD [])

/-- What the documents have to be like for a swap to be whole. -/
structure CompleteOffer (resVal sup : Json) (supTxs : List Json) : Prop where
  entries : ∀ tx ∈ supTxs,
    (tx.stringAt "txid").isSome = true ∧ (tx.stringAt "data").isSome = true
  commitment : (sup.stringAt "default_witness_commitment").isSome = true
  /-- the node's fees, added up in 64 bits, are part of its value -/
  covered : ourFees resVal ≤ jsonU64 (resVal.objectGet "coinbasevalue")
  /-- the value fits the integers of jansson -/
  fits_low : -2 ^ 63 ≤ satoshis (resVal.objectGet "coinbasevalue") -
    feeTotal ((resVal.arrayAt "transactions").getD []) + feeTotal supTxs
  fits_high : satoshis (resVal.objectGet "coinbasevalue") -
    feeTotal ((resVal.arrayAt "transactions").getD []) + feeTotal supTxs < 2 ^ 63

theorem installedTx_eq_some_iff {tx newTx : Json} :
    installedTx tx = some newTx ↔ ∃ txid data, tx.stringAt "txid" = some txid ∧
      tx.stringAt "data" = some data ∧
      newTx = .object
        [("data", .string data), ("txid", .string txid), ("hash", .string txid),
          ("fee", .ofUInt64 (txFee tx).toNat),
          ("weight", .ofUInt64 (jsonU64 (tx.objectGet "weight")).toNat),
          ("sigops", .integer 0)] := by
  unfold installedTx
  constructor
  · intro h
    obtain ⟨txid, htxid, h⟩ := Option.bind_eq_some_iff.mp h
    obtain ⟨data, hdata, h⟩ := Option.bind_eq_some_iff.mp h
    exact ⟨txid, data, htxid, hdata, (Option.some.inj h).symm⟩
  · rintro ⟨txid, data, htxid, hdata, rfl⟩
    rw [htxid, hdata]
    rfl

theorem carriedOver_of_installedTx {tx newTx : Json} (h : installedTx tx = some newTx) :
    CarriedOver tx newTx := by
  obtain ⟨txid, data, htxid, hdata, rfl⟩ := installedTx_eq_some_iff.mp h
  exact ⟨⟨txid, htxid, rfl⟩, ⟨data, hdata, rfl⟩, satoshis_ofUInt64 _,
    satoshis_ofUInt64 _⟩

/-- An entry is installed when it has both texts. -/
theorem installedTx_isSome_iff {tx : Json} : (installedTx tx).isSome = true ↔
    (tx.stringAt "txid").isSome = true ∧ (tx.stringAt "data").isSome = true := by
  simp only [Option.isSome_iff_exists, installedTx_eq_some_iff]
  constructor
  · rintro ⟨_, txid, data, htxid, hdata, _⟩
    exact ⟨⟨txid, htxid⟩, ⟨data, hdata⟩⟩
  · rintro ⟨⟨txid, htxid⟩, ⟨data, hdata⟩⟩
    exact ⟨_, txid, data, htxid, hdata, rfl⟩

/-- With no entry passed over, all are carried over, in their order. -/
theorem forall₂_installed (hall : ∀ tx ∈ supTxs, (installedTx tx).isSome = true) :
    List.Forall₂ CarriedOver supTxs (supTxs.filterMap installedTx) := by
  induction supTxs with
  | nil => exact .nil
  | cons tx rest ih =>
    obtain ⟨newTx, hnew⟩ := Option.isSome_iff_exists.mp (hall tx List.mem_cons_self)
    rw [List.filterMap_cons_some hnew]
    exact .cons (carriedOver_of_installedTx hnew)
      (ih fun tx' htx' => hall tx' (List.mem_cons_of_mem _ htx'))

theorem feeTotal_of_forall₂ {newTxs : List Json} (h : List.Forall₂ CarriedOver supTxs newTxs) :
    feeTotal newTxs = feeTotal supTxs := by
  induction h with
  | nil => rfl
  | cons hcarried _ ih => rw [feeTotal, feeTotal, hcarried.fee, ih]

/-- Read as signed, the 64-bit value written is the number it is a multiple of
    2⁶⁴ away from, if that number fits at all. -/
theorem bmod_eq_iff_of_modEq {written value : Int} (hmod : written ≡ value [ZMOD 2 ^ 64]) :
    written.bmod (2 ^ 64) = value ↔ -2 ^ 63 ≤ value ∧ value < 2 ^ 63 := by
  have hle : -((2 : Int) ^ 64 / 2) ≤ written.bmod (2 ^ 64) := Int.le_bmod (by decide)
  have hlt : written.bmod (2 ^ 64) < ((2 : Int) ^ 64 + 1) / 2 := Int.bmod_lt (by decide)
  have hemod : written.bmod (2 ^ 64) % 2 ^ 64 = value % 2 ^ 64 := (bmod_modEq written).trans hmod
  omega

theorem vanishes_of_modEq {total fees added : Int}
    (h : total - fees + added ≡ total + added [ZMOD 2 ^ 64]) : fees ≡ 0 [ZMOD 2 ^ 64] := by
  unfold Int.ModEq at h ⊢
  omega

/-- What is left of the value once the node's fees are taken off. -/
theorem ourSubsidy_modEq
    (hcovered : ourFees resVal ≤ jsonU64 (resVal.objectGet "coinbasevalue")) :
    ((ourSubsidy resVal).toNat : Int) ≡ satoshis (resVal.objectGet "coinbasevalue") -
      feeTotal ((resVal.arrayAt "transactions").getD []) [ZMOD 2 ^ 64] := by
  have hsub : ourSubsidy resVal =
      jsonU64 (resVal.objectGet "coinbasevalue") - ourFees resVal := if_pos hcovered
  have hle : (ourFees resVal).toNat ≤ (jsonU64 (resVal.objectGet "coinbasevalue")).toNat :=
    UInt64.le_iff_toNat_le.mp hcovered
  rw [hsub, UInt64.toNat_sub_of_le _ _ hcovered, Nat.cast_sub hle]
  exact (satoshis_modEq _).symm.sub (feeSum_modEq _)

theorem swappedValue_modEq (hall : ∀ tx ∈ supTxs, (installedTx tx).isSome = true) :
    ((swappedValue resVal supTxs).toNat : Int) ≡
      (ourSubsidy resVal).toNat + feeTotal supTxs [ZMOD 2 ^ 64] := by
  unfold swappedValue
  rw [List.filter_eq_self.mpr hall, UInt64.toNat_add]
  push_cast
  exact (Int.mod_modEq _ _).trans ((feeSum_modEq supTxs).add_left _)

/-- The value written is the right one when the node's fees are part of its own
    value and the number fits. -/
theorem value_iff (hall : ∀ tx ∈ supTxs, (installedTx tx).isSome = true) :
    ((swappedValue resVal supTxs).toNat : Int).bmod (2 ^ 64) =
        satoshis (resVal.objectGet "coinbasevalue") -
          feeTotal ((resVal.arrayAt "transactions").getD []) + feeTotal supTxs ↔
      ourFees resVal ≤ jsonU64 (resVal.objectGet "coinbasevalue") ∧
        -2 ^ 63 ≤ satoshis (resVal.objectGet "coinbasevalue") -
          feeTotal ((resVal.arrayAt "transactions").getD []) + feeTotal supTxs ∧
        satoshis (resVal.objectGet "coinbasevalue") -
          feeTotal ((resVal.arrayAt "transactions").getD []) + feeTotal supTxs < 2 ^ 63 := by
  have hvalue : ((swappedValue resVal supTxs).toNat : Int) ≡
      (ourSubsidy resVal).toNat + feeTotal supTxs [ZMOD 2 ^ 64] := swappedValue_modEq hall
  by_cases hcovered : ourFees resVal ≤ jsonU64 (resVal.objectGet "coinbasevalue")
  · rw [bmod_eq_iff_of_modEq (hvalue.trans ((ourSubsidy_modEq hcovered).add_right _))]
    exact (and_iff_right hcovered).symm
  · refine iff_of_false ?_ fun h => hcovered h.1
    intro heq
    -- the subsidy is the whole value here, so the fees would have to vanish
    have hsub : ourSubsidy resVal = jsonU64 (resVal.objectGet "coinbasevalue") :=
      if_neg hcovered
    rw [hsub] at hvalue
    have hcbv := satoshis_modEq (resVal.objectGet "coinbasevalue")
    have hfees := feeSum_modEq ((resVal.arrayAt "transactions").getD [])
    have hwritten := bmod_modEq ((swappedValue resVal supTxs).toNat : Int)
    rw [heq] at hwritten
    have hzero : ((ourFees resVal).toNat : Int) ≡ 0 [ZMOD 2 ^ 64] :=
      hfees.trans (vanishes_of_modEq (hwritten.trans (hvalue.trans (hcbv.symm.add_right _))))
    have hlt := (ourFees resVal).toNat_lt
    have hnot : ¬ (ourFees resVal).toNat ≤ (jsonU64 (resVal.objectGet "coinbasevalue")).toNat :=
      fun h => hcovered (UInt64.le_iff_toNat_le.mpr h)
    unfold Int.ModEq at hzero
    omega

/-- A swap that is taken is whole exactly when the supplier's offer is. -/
theorem swappedWhole_iff {resVal' : Json} (happlies : Applies resVal sup supTxs)
    (hresult : SwapResult resVal sup supTxs resVal') :
    SwappedWhole resVal sup resVal' ↔ CompleteOffer resVal sup supTxs := by
  obtain ⟨_, _, _, htxs⟩ := happlies
  constructor
  · intro hwhole
    obtain ⟨listed, newTxs, hlisted, hnew, hcarried⟩ := hwhole.transactions
    obtain rfl : supTxs = listed := Option.some.inj (htxs.symm.trans hlisted)
    have hentries : ∀ tx ∈ supTxs,
        (tx.stringAt "txid").isSome = true ∧ (tx.stringAt "data").isSome = true := by
      intro tx htx
      obtain ⟨i, hi, rfl⟩ := List.getElem_of_mem htx
      have hentry := hcarried.get hi (hcarried.length_eq ▸ hi)
      obtain ⟨txid, htxid, _⟩ := hentry.txid
      obtain ⟨data, hdata, _⟩ := hentry.data
      exact ⟨Option.isSome_of_eq_some htxid, Option.isSome_of_eq_some hdata⟩
    have hall : ∀ tx ∈ supTxs, (installedTx tx).isSome = true :=
      fun tx htx => installedTx_isSome_iff.mpr (hentries tx htx)
    obtain ⟨supWc, hwc, _⟩ := hwhole.commitment
    have hvalue := hwhole.value
    rw [hresult.value, satoshis_ofUInt64, hresult.transactions, Option.getD_some,
      feeTotal_of_forall₂ (forall₂_installed hall), value_iff hall] at hvalue
    obtain ⟨hcovered, hlow, hhigh⟩ := hvalue
    exact ⟨hentries, Option.isSome_of_eq_some hwc, hcovered, hlow, hhigh⟩
  · intro hoffer
    have hall : ∀ tx ∈ supTxs, (installedTx tx).isSome = true :=
      fun tx htx => installedTx_isSome_iff.mpr (hoffer.entries tx htx)
    refine ⟨⟨supTxs, _, htxs, hresult.transactions, forall₂_installed hall⟩, ?_, ?_⟩
    · obtain ⟨supWc, hwc⟩ := Option.isSome_iff_exists.mp hoffer.commitment
      refine ⟨supWc, hwc, ?_⟩
      rw [hresult.commitment, hwc]
      rfl
    · rw [hresult.value, satoshis_ofUInt64, hresult.transactions, Option.getD_some,
        feeTotal_of_forall₂ (forall₂_installed hall), value_iff hall]
      exact ⟨hoffer.covered, hoffer.fits_low, hoffer.fits_high⟩

/-- A swap that is refused changes nothing, and one that is taken is whole: this
    holds for the documents where no entry lacks a text, the supplier has a
    commitment, and the value comes out as a number jansson can hold. -/
theorem swapAllOrNothing_iff (resVal sup : Json) :
    (((swap resVal sup).1 = false → (swap resVal sup).2 = resVal) ∧
        ((swap resVal sup).1 = true → SwappedWhole resVal sup (swap resVal sup).2)) ↔
      ∀ supTxs, Applies resVal sup supTxs → CompleteOffer resVal sup supTxs := by
  by_cases happlies : ∃ supTxs, Applies resVal sup supTxs
  · obtain ⟨supTxs, happlies⟩ := happlies
    obtain ⟨resVal', hswap, hresult⟩ := swap_of_applies happlies
    rw [hswap]
    constructor
    · rintro ⟨_, hwhole⟩ listed hlisted
      obtain rfl : supTxs = listed := by
        obtain ⟨_, _, _, htxs⟩ := happlies
        obtain ⟨_, _, _, hlisted⟩ := hlisted
        exact Option.some.inj (htxs.symm.trans hlisted)
      exact (swappedWhole_iff happlies hresult).mp (hwhole rfl)
    · intro hoffer
      refine ⟨nofun, fun _ => ?_⟩
      exact (swappedWhole_iff happlies hresult).mpr (hoffer supTxs happlies)
  · have hnot : ∀ supTxs, ¬ Applies resVal sup supTxs := not_exists.mp happlies
    rw [swap_of_not_applies hnot]
    exact iff_of_true ⟨fun _ => rfl, nofun⟩
      fun supTxs h => absurd h (hnot supTxs)

end Swap

/-- A reply of the node: a block subsidy and one transaction with a fee. -/
def ownReply : Json :=
  .object
    [("previousblockhash", .string (List.replicate 64 0x30)),
      ("coinbasevalue", .integer 5000001000),
      ("transactions", .array [.object [("fee", .integer 1000)]]),
      ("default_witness_commitment", .string (ascii "6a24aa21a9ed"))]

/-- A supplier at that tip whose second entry has no `data`. -/
def patchyOffer : Json :=
  .object
    [("previousblockhash", .string (List.replicate 64 0x30)),
      ("default_witness_commitment", .string (ascii "6a24aa21a9ee")),
      ("transactions", .array
        [.object [("txid", .string (ascii "aa")), ("data", .string (ascii "01")),
            ("fee", .integer 300)],
          .object [("txid", .string (ascii "bb")), ("fee", .integer 500)]])]

/-- The entry is left out and the rest is taken, under a commitment to both. -/
theorem patchyOffer_notWhole :
    (swap ownReply patchyOffer).1 = true ∧
      ¬ SwappedWhole ownReply patchyOffer (swap ownReply patchyOffer).2 := by
  refine ⟨by decide +kernel, fun hwhole => ?_⟩
  obtain ⟨supTxs, newTxs, hsup, hnew, hcarried⟩ := hwhole.transactions
  have hlen := hcarried.length_eq
  rw [← Option.some.inj hsup, ← Option.some.inj hnew] at hlen
  exact absurd hlen (by decide)

end ChirpGateway
