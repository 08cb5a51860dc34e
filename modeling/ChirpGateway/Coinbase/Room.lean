import ChirpGateway.Chirp.CoinbaseCheck
import ChirpGateway.Chirp.OutputBytes
import ChirpGateway.Coinbase.Vout
import Mathlib.Tactic.MkIffOfInductiveProp

/-!
# The room for the outputs

The split keeps its payouts within a budget of bytes. The room a coinbase has for
them is counted later, from the limits of the template, and what does not fit is
left out of it. When nothing is left out is decided here.
-/

namespace ChirpGateway

open Bytes Wire

/-! ## Packing -/

/-- What outputs are counted with together. -/
def totalCost (outputs : List DatumTxnOutput) : Nat :=
  (outputs.map outputCost).sum

theorem totalCost_append (xs ys : List DatumTxnOutput) :
    totalCost (xs ++ ys) = totalCost xs + totalCost ys := by
  rw [totalCost, List.map_append, List.sum_append]
  rfl

theorem totalCost_cons (output : DatumTxnOutput) (outputs : List DatumTxnOutput) :
    totalCost (output :: outputs) = outputCost output + totalCost outputs := rfl

section Pack

variable {coinbaseValue : Nat}

theorem packOutputs_sublist (room : Int) (mval k : Nat) (outputs : List DatumTxnOutput) :
    ((packOutputs coinbaseValue room mval k outputs).map Prod.snd).Sublist outputs := by
  induction outputs generalizing room mval k with
  | nil => exact List.Sublist.slnil
  | cons output outputs ih =>
    simp only [packOutputs]
    split
    · split
      · exact (List.nil_sublist outputs).cons_cons output
      · split
        · exact (List.nil_sublist outputs).cons_cons output
        · exact (ih _ _ _).cons_cons output
    · exact (ih _ _ _).cons output

/-- What is chosen fits the room. -/
theorem totalCost_packOutputs_le {room : Int} (hroom : 0 ≤ room) (mval k : Nat)
    (outputs : List DatumTxnOutput) :
    (totalCost ((packOutputs coinbaseValue room mval k outputs).map Prod.snd) : Int) ≤ room := by
  induction outputs generalizing room mval k with
  | nil => exact hroom
  | cons output outputs ih =>
    simp only [packOutputs]
    split
    · next hfits =>
      have hone : (totalCost [output] : Int) = outputCost output := rfl
      split
      · exact hone.trans_le hfits.1
      · split
        · exact hone.trans_le hfits.1
        · have hleft : 0 ≤ room - outputCost output := by omega
          have hrest := ih hleft ((mval + output.valueSats) % 2 ^ 64) (k + 1)
          have hcons (entries : List (Nat × DatumTxnOutput)) :
              totalCost (((k, output) :: entries).map Prod.snd) =
                outputCost output + totalCost (entries.map Prod.snd) := rfl
          rw [hcons, Nat.cast_add]
          omega
    · exact ih hroom _ _

/-- Where there is room for all of them, and value for each but the first, all
    are chosen. -/
theorem packOutputs_eq_all {room : Int} {mval : Nat} (k : Nat) {outputs : List DatumTxnOutput}
    (hvalue : coinbaseValue < 2 ^ 64) (hroom : (totalCost outputs : Int) ≤ room)
    (hcost : ∀ output ∈ outputs, 30 ≤ outputCost output)
    (hpaid : ∀ output ∈ outputs.tail, 0 < output.valueSats)
    (htotal : mval + outputsTotal outputs ≤ coinbaseValue) :
    (packOutputs coinbaseValue room mval k outputs).map Prod.snd = outputs := by
  induction outputs generalizing room mval k with
  | nil => rfl
  | cons output outputs ih =>
    rw [totalCost_cons, Nat.cast_add] at hroom
    have hsum : outputsTotal (output :: outputs) =
        output.valueSats + outputsTotal outputs := rfl
    have hmod : (mval + output.valueSats) % 2 ^ 64 = mval + output.valueSats := by
      apply Nat.mod_eq_of_lt
      omega
    simp only [packOutputs, hmod]
    rw [if_pos ⟨by omega, by omega⟩]
    cases outputs with
    | nil =>
      simp only [packOutputs]
      split
      · rfl
      · split <;> rfl
    | cons next rest =>
      -- the next output has a cost and a value, so that the loop goes on
      have hnext := hcost next (List.mem_cons_of_mem _ List.mem_cons_self)
      have hnextPaid : 0 < next.valueSats := hpaid next List.mem_cons_self
      have hnextTotal : outputsTotal (next :: rest) = next.valueSats + outputsTotal rest := rfl
      rw [totalCost_cons, Nat.cast_add] at hroom
      rw [if_neg (by omega), if_neg (by omega), List.map_cons]
      apply congrArg
      apply ih
      · rw [totalCost_cons, Nat.cast_add]
        omega
      · intro other hother
        exact hcost other (List.mem_cons_of_mem _ hother)
      · intro other hother
        exact hpaid other (List.mem_cons_of_mem _ hother)
      · omega

/-- All are chosen exactly where there is room for all. -/
theorem packOutputs_eq_iff {room : Int} {outputs : List DatumTxnOutput}
    (hvalue : coinbaseValue < 2 ^ 64) (hroom : 0 ≤ room)
    (hcost : ∀ output ∈ outputs, 30 ≤ outputCost output)
    (hpaid : ∀ output ∈ outputs.tail, 0 < output.valueSats)
    (htotal : outputsTotal outputs ≤ coinbaseValue) :
    (packOutputs coinbaseValue room 0 0 outputs).map Prod.snd = outputs ↔
      (totalCost outputs : Int) ≤ room := by
  constructor
  · intro hall
    rw [← hall]
    exact totalCost_packOutputs_le hroom 0 0 outputs
  · intro hfits
    exact packOutputs_eq_all 0 hvalue hfits hcost hpaid (by rwa [Nat.zero_add])

end Pack

/-! ## The room -/

/-- The template has room for outputs of `need` bytes besides the fixed ones. Over
    the weight limit the size is only checked without them. -/
@[mk_iff]
structure OutputsFit (tmpl : DatumTemplate) (fixed need : Nat) : Prop where
  size : fixed + (if weightTight tmpl (fixed + 16000) then 0 else need) + sizeUsed tmpl ≤
    tmpl.sizelimit.toNat
  weight : weightTight tmpl (fixed + 16000) = true →
    4 * (fixed + need) + weightUsed tmpl ≤ tmpl.weightlimit.toNat

theorem toInt32_eq {value : Int} (wraps : Int) (hlow : -2 ^ 31 ≤ value) (hhigh : value < 2 ^ 31) :
    toInt32 (value + 2 ^ 32 * wraps) = value := by
  rw [toInt32, Int.bmod_def]
  omega

theorem sizeUsed_lt (tmpl : DatumTemplate) : sizeUsed tmpl < 2 ^ 25 := by
  have hsize := tmpl.txnTotalSize_lt
  rw [sizeUsed]
  split <;> omega

/-- The same for any size a coinbase may have. -/
@[mk_iff]
structure RoomFor (tmpl : DatumTemplate) (maxSz fixed need : Nat) : Prop where
  max : fixed + need ≤ maxSz
  size : fixed + (if weightTight tmpl (fixed + maxSz) then 0 else need) + sizeUsed tmpl ≤
    tmpl.sizelimit.toNat
  weight : weightTight tmpl (fixed + maxSz) = true →
    4 * (fixed + need) + weightUsed tmpl ≤ tmpl.weightlimit.toNat

section Fit

variable {tmpl : DatumTemplate} {maxSz fixed : Nat}

/-- The room by size, where the limit is near. -/
theorem bySize_eq (hmax : maxSz ≤ 16000) (hfixed : fixed ≤ maxSz)
    (htight : sizeTight tmpl (fixed + maxSz) = true) :
    toInt32 ((tmpl.sizelimit.toNat : Int) - sizeUsed tmpl - fixed) =
      (tmpl.sizelimit.toNat : Int) - sizeUsed tmpl - fixed := by
  have hused := sizeUsed_lt tmpl
  have hlimit : tmpl.sizelimit.toNat < fixed + maxSz + sizeUsed tmpl := by
    rw [sizeTight, decide_eq_true_eq] at htight
    omega
  have heq : toInt32 ((tmpl.sizelimit.toNat : Int) - sizeUsed tmpl - fixed + 2 ^ 32 * 0) =
      (tmpl.sizelimit.toNat : Int) - sizeUsed tmpl - fixed := by
    apply toInt32_eq <;> omega
  rwa [Int.mul_zero, Int.add_zero] at heq

/-- The room by weight, where the limit is near. The 64-bit difference may be
    negative, its quarter then loses the upper bits in the cast. -/
theorem byWeight_eq (hmax : maxSz ≤ 16000) (hfixed : fixed ≤ maxSz)
    (htight : weightTight tmpl (fixed + maxSz) = true) :
    toInt32 (((tmpl.weightlimit.toNat : Int) - weightUsed tmpl) % 2 ^ 64 / 4 - fixed) =
      ((tmpl.weightlimit.toNat : Int) - weightUsed tmpl) / 4 - fixed := by
  have hused : weightUsed tmpl < 2 ^ 32 := Nat.mod_lt _ (Nat.two_pow_pos 32)
  have hlimit : tmpl.weightlimit.toNat < 2 ^ 32 := by
    rw [weightTight, decide_eq_true_eq] at htight
    omega
  generalize tmpl.weightlimit.toNat = limit at hlimit ⊢
  generalize weightUsed tmpl = used at hused ⊢
  by_cases hle : used ≤ limit
  · have hdiff : ((limit : Int) - used) % 2 ^ 64 / 4 - fixed =
        (((limit : Int) - used) / 4 - fixed) + 2 ^ 32 * 0 := by omega
    rw [hdiff]
    apply toInt32_eq <;> omega
  · have hdiff : ((limit : Int) - used) % 2 ^ 64 / 4 - fixed =
        (((limit : Int) - used) / 4 - fixed) + 2 ^ 32 * 2 ^ 30 := by omega
    rw [hdiff]
    apply toInt32_eq <;> omega

theorem fitToTemplate_nonneg (hfixed : fixed ≤ maxSz) : 0 ≤ fitToTemplate maxSz fixed tmpl := by
  simp only [fitToTemplate]
  split_ifs <;> omega

/-- Outputs of some size are within the room exactly where the reserves admit
    them. -/
theorem le_fitToTemplate_iff {need : Nat} (hneed : 0 < need) (hmax : maxSz ≤ 16000)
    (hfixed : fixed ≤ maxSz) :
    (need : Int) ≤ fitToTemplate maxSz fixed tmpl ↔ RoomFor tmpl maxSz fixed need := by
  rw [roomFor_iff]
  cases hsize : sizeTight tmpl (fixed + maxSz) with
  | false =>
    -- every need within the maximum has the size
    have hroom : fixed + maxSz + sizeUsed tmpl ≤ tmpl.sizelimit.toNat := by
      have hused := sizeUsed_lt tmpl
      rw [sizeTight, decide_eq_false_iff_not] at hsize
      omega
    cases hweight : weightTight tmpl (fixed + maxSz) with
    | false =>
      simp only [fitToTemplate, hsize, hweight, Bool.false_and, Bool.false_eq_true, if_false,
        false_implies,
        and_true]
      split_ifs <;> omega
    | true =>
      simp only [fitToTemplate, hsize, hweight, byWeight_eq hmax hfixed hweight, Bool.false_and,
        Bool.true_and, Bool.false_eq_true, if_false, if_true, decide_eq_true_eq, true_implies]
      split_ifs <;> omega
  | true =>
    cases hweight : weightTight tmpl (fixed + maxSz) with
    | false =>
      simp only [fitToTemplate, hsize, hweight, bySize_eq hmax hfixed hsize, Bool.false_and,
        Bool.true_and, Bool.false_eq_true, if_false, if_true, decide_eq_true_eq, false_implies,
        and_true]
      split_ifs <;> omega
    | true =>
      -- the weight decides, once the fixed bytes have the size
      simp only [fitToTemplate, hsize, hweight, bySize_eq hmax hfixed hsize,
        byWeight_eq hmax hfixed hweight, Bool.true_and, if_true, decide_eq_true_eq, true_implies]
      split_ifs <;> omega

theorem outputsFit_iff_roomFor {need : Nat} (hmax : fixed + need ≤ 16000) :
    OutputsFit tmpl fixed need ↔ RoomFor tmpl 16000 fixed need := by
  rw [outputsFit_iff, roomFor_iff]
  exact (and_iff_right hmax).symm

end Fit

/-! ## The outputs of a job -/

section Fill

variable (sha256 : List UInt8 → List UInt8) (config : ChirpConfig) (job : SplitJob)
variable {K : Type} [LinearOrder K]
variable (qsort : Qsort.Sorter (K × ChirpCand)) (drawKey : Nat → List UInt8 → Rat → K)
variable (jsonDumps : Json → List UInt8) (blake2b256 : List UInt8 → Hash32)
variable (env : ChirpEnv) (now : UInt64) (registry : List ChirpMiner)

/-- The payouts that are written take no more than their winners were counted
    with. -/
theorem totalCost_payouts_le (distributable : Nat) (totalW : Rat) (winners : List ChirpCand) :
    totalCost ((winners.filterMap (chirpPayout distributable totalW)).filterMap
        (payoutOutput sha256)) ≤
      (winners.map fun c => chirpOutputBytes c.addr.bytes).sum := by
  induction winners with
  | nil => exact le_rfl
  | cons winner winners ih =>
    rw [List.filterMap_cons, List.map_cons, List.sum_cons]
    cases hpayout : chirpPayout distributable totalW winner with
    | none => exact ih.trans (Nat.le_add_left _ _)
    | some payout =>
      have haddr : payout.addr = winner.addr := by
        simp only [chirpPayout] at hpayout
        split at hpayout
        · cases hpayout
          rfl
        · cases hpayout
      simp only [List.filterMap_cons, payoutOutput, haddr]
      cases hscript : addr2OutputScript sha256 winner.addr.bytes with
      | none => exact ih.trans (Nat.le_add_left _ _)
      | some script =>
        obtain ⟨-, -, hbytes⟩ := outputBytes_of_addr2OutputScript hscript
        exact Nat.add_le_add hbytes ih

theorem outputCost_of_mem_paidOutputs {o : DatumTxnOutput}
    (ho : o ∈ paidOutputs sha256 config job qsort drawKey env now registry) :
    31 ≤ outputCost o ∧ outputCost o ≤ 43 := by
  obtain ⟨-, addr, hscript⟩ :=
    mem_paidOutputs sha256 config job qsort drawKey env now registry ho
  obtain ⟨hlow, hhigh, -⟩ := outputBytes_of_addr2OutputScript hscript
  rw [outputCost]
  omega

theorem totalCost_supplierOutputs_le : totalCost (supplierOutputs sha256 config job) ≤ 43 := by
  cases hscript : supplierScript sha256 config job with
  | none =>
    simp only [supplierOutputs, hscript]
    exact Nat.zero_le _
  | some script =>
    obtain ⟨supplier, -, hdecode⟩ := Option.bind_eq_some_iff.mp hscript
    obtain ⟨-, hlen, -⟩ := outputBytes_of_addr2OutputScript hdecode
    simp only [supplierOutputs, hscript]
    split
    · show script.length + 9 ≤ 43
      omega
    · exact Nat.zero_le _

/-- The budget holds for what is paid, whatever the members' addresses are. -/
theorem totalCost_paidOutputs_le :
    totalCost (paidOutputs sha256 config job qsort drawKey env now registry) ≤
      43 + chirpOutputBudgetBytes := by
  have hsupplier := totalCost_supplierOutputs_le sha256 config job
  rw [paidOutputs, totalCost_append, chirpGlueSplit, chirpSplit_payouts]
  apply Nat.add_le_add hsupplier
  exact (totalCost_payouts_le sha256 _ _ _).trans chirpAdmitted_bytes_le

/-- What the coinbaser can rely on about the outputs it is given. -/
structure PayableOutputs (coinbaseValue : Nat) (outputs : List DatumTxnOutput) : Prop where
  cost : ∀ output ∈ outputs, 31 ≤ outputCost output ∧ outputCost output ≤ 49
  /-- only the commitment has no value -/
  paid : ∀ output ∈ outputs.tail, 0 < output.valueSats
  total : outputsTotal outputs ≤ coinbaseValue
  bytes : totalCost outputs ≤ 92 + chirpOutputBudgetBytes

theorem payableOutputs_fill {fill : ChirpFill}
    (hfill : chirpGlueFillOutputs sha256 config job qsort drawKey jsonDumps blake2b256 env now
      registry = some fill) :
    PayableOutputs job.coinbaseValue.toNat fill.outputs := by
  have hvalue : job.coinbaseValue ≠ 0 := by
    rintro hzero
    rw [chirpGlueFillOutputs, if_pos hzero] at hfill
    cases hfill
  rw [chirpGlueFillOutputs_eq sha256 config job qsort drawKey jsonDumps blake2b256 env now registry
    hvalue, Option.some.injEq] at hfill
  have hcost (o : DatumTxnOutput)
      (ho : o ∈ paidOutputs sha256 config job qsort drawKey env now registry) :
      31 ≤ outputCost o ∧ outputCost o ≤ 43 :=
    outputCost_of_mem_paidOutputs sha256 config job qsort drawKey env now registry ho
  have hpaid (o : DatumTxnOutput)
      (ho : o ∈ paidOutputs sha256 config job qsort drawKey env now registry) :
      0 < o.valueSats :=
    Nat.lt_of_lt_of_le (by decide)
      (mem_paidOutputs sha256 config job qsort drawKey env now registry ho).1
  have htotal := outputsTotal_paidOutputs_le sha256 config job qsort drawKey env now registry
  have hbytes := totalCost_paidOutputs_le sha256 config job qsort drawKey env now registry
  have houtputs : fill.outputs = commitmentOutputs jsonDumps blake2b256 env
      (chirpGlueSnapshot sha256 config job qsort drawKey env now registry) ++
        paidOutputs sha256 config job qsort drawKey env now registry := by
    rw [← hfill]
    rfl
  rw [houtputs, commitmentOutputs]
  generalize paidOutputs sha256 config job qsort drawKey env now registry = paid at *
  split
  · have hcommitment : outputCost (commitmentOutput jsonDumps blake2b256
        (chirpGlueSnapshot sha256 config job qsort drawKey env now registry)) = 49 := by
      simp [outputCost, commitmentOutput, commitmentScript, Hash32.length_eq, ascii]
    refine ⟨?_, hpaid, ?_, ?_⟩
    · intro output houtput
      rcases List.mem_cons.mp houtput with rfl | hmem
      · omega
      · have hbounds := hcost output hmem
        omega
    · rw [outputsTotal_append]
      exact (Nat.zero_add _).trans_le htotal
    · rw [totalCost_append, totalCost_cons, hcommitment]
      show 49 + 0 + totalCost paid ≤ _
      omega
  · refine ⟨?_, ?_, htotal, ?_⟩
    · intro output houtput
      have hbounds := hcost output houtput
      omega
    · intro output houtput
      exact hpaid output (List.mem_of_mem_tail houtput)
    · exact hbytes.trans (Nat.add_le_add_right (by decide) _)

end Fill

/-! ## Nothing is left out -/

/-- Whatever the extranonce is, the network reads every output of the job out of
    this coinbase, with its value, and the pool has what they leave. -/
def CarriesEveryOutput (job : CoinbaserJob) (spaceForEn : Bool) (coinbase : StratumCoinbase) :
    Prop :=
  ∀ extranonce : List UInt8, extranonce.length = 12 →
    readVout (coinbase.txn extranonce) =
      some (coinbaseVout job spaceForEn extranonce job.availableCoinbaseOutputs)

section Carried

variable {job : CoinbaserJob} {input : List UInt8}

theorem coinbaseVout_injective {outputs outputs' : List DatumTxnOutput} {spaceForEn : Bool}
    {extranonce : List UInt8}
    (h : coinbaseVout job spaceForEn extranonce outputs =
      coinbaseVout job spaceForEn extranonce outputs') : outputs = outputs' := by
  have hrest := List.append_cancel_left h
  obtain ⟨hmap, -⟩ := List.append_inj' hrest rfl
  have hinj : Function.Injective DatumTxnOutput.toTxOut := by
    rintro ⟨script, value⟩ ⟨script', value'⟩ heq
    obtain ⟨rfl, rfl⟩ := TxOut.mk.inj heq
    rfl
  exact List.map_injective_iff.mpr hinj hmap

theorem PayableOutputs.fits {coinbaseValue : Nat} {outputs : List DatumTxnOutput}
    (h : PayableOutputs coinbaseValue outputs) (hvalue : coinbaseValue < 2 ^ 64)
    {output : DatumTxnOutput} (houtput : output ∈ outputs) : output.toTxOut.Fits where
  value_lt := by
    have hle : output.valueSats ≤ outputsTotal outputs :=
      List.le_sum_of_mem (List.mem_map_of_mem houtput)
    exact (hle.trans h.total).trans_lt hvalue
  script_lt := by
    have hcost := (h.cost output houtput).2
    rw [outputCost] at hcost
    show output.outputScript.length < 2 ^ 64
    omega

theorem PayableOutputs.length_lt {coinbaseValue : Nat} {outputs : List DatumTxnOutput}
    (h : PayableOutputs coinbaseValue outputs) : outputs.length < 2 ^ 63 := by
  have hlen := List.length_le_sum_of_one_le (outputs.map outputCost) (by
    rw [List.forall_mem_map]
    intro output houtput
    exact le_trans (by decide) (h.cost output houtput).1)
  have hbytes := h.bytes
  have hbudget : chirpOutputBudgetBytes = 14800 := rfl
  rw [List.length_map] at hlen
  rw [totalCost] at hbytes
  omega

/-- A coinbase that is written for some of the outputs carries them all exactly
    where these are all. -/
theorem carriesEveryOutput_writeCoinbase_iff
    (houtputs : PayableOutputs job.coinbaseValue job.availableCoinbaseOutputs)
    (hinput : input.length < 2 ^ 63) (hpool : job.poolAddrScript.length < 2 ^ 64)
    {packed : List (Nat × DatumTxnOutput)}
    (hpacked : (packed.map Prod.snd).Sublist job.availableCoinbaseOutputs) (spaceForEn : Bool) :
    CarriesEveryOutput job spaceForEn
        (writeCoinbase job (coinb1Base job input spaceForEn) spaceForEn false packed) ↔
      packed.map Prod.snd = job.availableCoinbaseOutputs := by
  have hvalue : job.coinbaseValue < 2 ^ 64 := job.blockTemplate.coinbasevalue.toNat_lt
  have hcount : packed.length < 2 ^ 63 := by
    have hlen := hpacked.length_le
    rw [List.length_map] at hlen
    exact hlen.trans_lt houtputs.length_lt
  have hfits (entry : Nat × DatumTxnOutput) (hentry : entry ∈ packed) : entry.2.toTxOut.Fits :=
    houtputs.fits hvalue (hpacked.subset (List.mem_map_of_mem hentry))
  have hread (extranonce : List UInt8) (hlen : extranonce.length = 12) :=
    readVout_writeCoinbase hinput hpool hlen hcount hfits spaceForEn
  constructor
  · intro hall
    have hzero := hall (List.replicate 12 0) List.length_replicate
    rw [hread _ List.length_replicate, Option.some.injEq] at hzero
    exact coinbaseVout_injective hzero
  · intro heq extranonce hlen
    rw [hread extranonce hlen, heq]

/-- For outputs the coinbaser can rely on, the room of the template decides. -/
theorem carriesEveryOutput_iff_of_payable {tags : CoinbaseTags} {input : CoinbaseInput}
    (houtputs : PayableOutputs job.coinbaseValue job.availableCoinbaseOutputs)
    (hpool : job.poolAddrScript.length ≤ 34)
    (hinput : generateCoinbaseInput tags job.blockTemplate job.carouselSupplierName =
      some input) :
    (∃ set, generateCoinbaseTxns tags job = some set ∧
      CarriesEveryOutput job (input.bytes.length ≤ 85) (set.coinbase 4)) ↔
    (job.availableCoinbaseOutputs ≠ [] →
      OutputsFit job.blockTemplate (cbReqSz job input.bytes 4)
        (totalCost job.availableCoinbaseOutputs)) := by
  have hlen := length_generateCoinbaseInput_le hinput
  have hcarries {packed : List (Nat × DatumTxnOutput)}
      (hpacked : (packed.map Prod.snd).Sublist job.availableCoinbaseOutputs) (spaceForEn : Bool) :
      CarriesEveryOutput job spaceForEn
          (writeCoinbase job (coinb1Base job input.bytes spaceForEn) spaceForEn false packed) ↔
        packed.map Prod.snd = job.availableCoinbaseOutputs :=
    carriesEveryOutput_writeCoinbase_iff houtputs (by omega) (by omega) hpacked spaceForEn
  rw [generateCoinbaseTxns, hinput, Option.map_some]
  simp only [Option.some.injEq, exists_eq_left']
  by_cases hempty : job.availableCoinbaseOutputs = []
  · have hnone : job.availableCoinbaseOutputs.isEmpty = true ∨ (4 : Fin 6) = 0 :=
      Or.inl (List.isEmpty_iff.mpr hempty)
    have hnil : (([] : List (Nat × DatumTxnOutput)).map Prod.snd).Sublist
        job.availableCoinbaseOutputs := List.nil_sublist _
    rw [if_pos hnone]
    have hall := (hcarries hnil (input.bytes.length ≤ 85)).mpr hempty.symm
    exact iff_of_true hall fun hne => absurd hempty hne
  · have hsome : ¬ (job.availableCoinbaseOutputs.isEmpty = true ∨ (4 : Fin 6) = 0) := by
      rintro (hnone | hfour)
      · exact hempty (List.isEmpty_iff.mp hnone)
      · exact absurd hfour (by decide)
    have hneed : 0 < totalCost job.availableCoinbaseOutputs := by
      obtain ⟨output, houtput⟩ := List.exists_mem_of_ne_nil _ hempty
      have hle : outputCost output ≤ totalCost job.availableCoinbaseOutputs :=
        List.le_sum_of_mem (List.mem_map_of_mem houtput)
      exact lt_of_lt_of_le (lt_of_lt_of_le (by decide) (houtputs.cost output houtput).1) hle
    have hfixed : cbReqSz job input.bytes 4 ≤ 442 := by
      rw [cbReqSz]
      split <;> omega
    have hbytes := houtputs.bytes
    have hbudget : chirpOutputBudgetBytes = 14800 := rfl
    have hspace : (decide (input.bytes.length ≤ 85) && decide ((4 : Fin 6) ≠ 2)) =
        decide (input.bytes.length ≤ 85) := Bool.and_true _
    have hcost (output : DatumTxnOutput) (houtput : output ∈ job.availableCoinbaseOutputs) :
        30 ≤ outputCost output := le_trans (by decide) (houtputs.cost output houtput).1
    rw [if_neg hsome, typedCoinbase, hspace, outputsFit_iff_roomFor (by omega),
      ← le_fitToTemplate_iff hneed le_rfl (by omega),
      ← packOutputs_eq_iff job.blockTemplate.coinbasevalue.toNat_lt
        (fitToTemplate_nonneg (by omega)) hcost houtputs.paid houtputs.total]
    refine (hcarries (packOutputs_sublist _ 0 0 job.availableCoinbaseOutputs) _).trans ?_
    exact ⟨fun hall _ => hall, fun hall => hall hempty⟩

end Carried

/-- An output as the verifier sees it. -/
def ofTxOut (output : TxOut) : DatumTxnOutput where
  outputScript := output.script
  valueSats := output.value

theorem map_ofTxOut_toTxOut (outputs : List DatumTxnOutput) :
    (outputs.map DatumTxnOutput.toTxOut).map ofTxOut = outputs := by
  rw [List.map_map]
  exact List.map_id outputs

/-- Such a coinbase is one the verifier's checks are about. -/
theorem carriesAll_coinbaseVout {job : CoinbaserJob} {outputs : List DatumTxnOutput}
    (htotal : outputsTotal outputs ≤ job.coinbaseValue) (spaceForEn : Bool)
    (extranonce : List UInt8) :
    CarriesAll job.coinbaseValue job.poolAddrScript outputs
      ((coinbaseVout job spaceForEn extranonce outputs).map ofTxOut) := by
  have hlt : job.coinbaseValue < 2 ^ 64 := job.blockTemplate.coinbasevalue.toNat_lt
  have hmod : (outputs.map DatumTxnOutput.valueSats).sum % 2 ^ 64 = outputsTotal outputs :=
    Nat.mod_eq_of_lt (htotal.trans_lt hlt)
  have hfront : ∀ o ∈
      (if spaceForEn then [] else [extranonceOutput job.enPrefix extranonce]).map
      ofTxOut, o.valueSats = 0 := by
    cases spaceForEn <;> simp [ofTxOut, extranonceOutput]
  simp only [coinbaseVout, hmod, List.map_append, map_ofTxOut_toTxOut, List.map_cons, List.map_nil]
  generalize (if spaceForEn then [] else [extranonceOutput job.enPrefix extranonce]).map ofTxOut =
    front at hfront
  have hwitness : (ofTxOut (witnessOutput job.blockTemplate)).valueSats = 0 := rfl
  simp only [CarriesAll, poolOutput, leftoverOutput]
  by_cases hleft : job.coinbaseValue > outputsTotal outputs
  · refine ⟨front ++ [ofTxOut (witnessOutput job.blockTemplate)], ?_, ?_⟩
    · simpa [or_imp, forall_and] using ⟨hfront, hwitness⟩
    · rw [if_pos hleft, if_neg (by omega), List.append_assoc]
      refine (List.perm_append_comm_assoc front outputs _).trans ?_
      exact List.perm_middle.append_left outputs
  · -- nothing is left: the dead output stands where the pool's would
    refine ⟨front ++ [ofTxOut { value := 0, script := [0x6a, 0x01, 0x00] },
      ofTxOut (witnessOutput job.blockTemplate)], ?_, ?_⟩
    · simpa [or_imp, forall_and] using ⟨hfront, rfl, hwitness⟩
    · rw [if_neg hleft, if_pos (by omega), List.append_nil]
      exact List.perm_append_comm_assoc front outputs _

section Fill

variable {sha256 : List UInt8 → List UInt8} {config : ChirpConfig} {job : CoinbaserJob}
variable {K : Type} [LinearOrder K]
variable {qsort : Qsort.Sorter (K × ChirpCand)} {drawKey : Nat → List UInt8 → Rat → K}
variable {jsonDumps : Json → List UInt8} {blake2b256 : List UInt8 → Hash32}
variable {env : ChirpEnv} {now : UInt64} {registry : List ChirpMiner} {fill : ChirpFill}
variable {tags : CoinbaseTags} {input : CoinbaseInput}

/-- The coinbase of a job carries the outputs it was given, unless the limits of
    the template leave too little room for all of them: then some go to the pool. -/
theorem carriesEveryOutput_iff {poolAddress : List UInt8}
    (hpool : addr2OutputScript sha256 poolAddress = some job.poolAddrScript)
    (hfill : chirpGlueFillOutputs sha256 config job.splitJob qsort drawKey jsonDumps blake2b256 env
      now registry = some fill)
    (houtputs : job.availableCoinbaseOutputs = fill.outputs)
    (hinput : generateCoinbaseInput tags job.blockTemplate job.carouselSupplierName =
      some input) :
    (∃ set, generateCoinbaseTxns tags job = some set ∧
      CarriesEveryOutput job (input.bytes.length ≤ 85) (set.coinbase 4)) ↔
    (fill.outputs ≠ [] →
      OutputsFit job.blockTemplate (cbReqSz job input.bytes 4) (totalCost fill.outputs)) := by
  have hpayable := payableOutputs_fill sha256 config job.splitJob qsort drawKey jsonDumps
    blake2b256 env now registry hfill
  obtain ⟨-, hpoolLen, -⟩ := outputBytes_of_addr2OutputScript hpool
  rw [← houtputs] at hpayable ⊢
  exact carriesEveryOutput_iff_of_payable hpayable hpoolLen hinput

end Fill

/-! ## Two templates -/

/-- A block with a coinbase of so many bytes is within the limits: the header, a
    count of at most three bytes, the coinbase with its witness and the
    transactions. -/
structure CoinbaseFits (tmpl : DatumTemplate) (cbBytes : Nat) : Prop where
  size : (if tmpl.headerVersion ≥ 2 then 164 else 80) + 3 + cbBytes + 36 +
    tmpl.txnTotalSize.toNat ≤ tmpl.sizelimit.toNat
  weight : 4 * ((if tmpl.headerVersion ≥ 2 then 164 else 80) + 3 + cbBytes) + 36 +
    tmpl.txnTotalWeight.toNat ≤ tmpl.weightlimit.toNat

/-- A template whose transactions leave so much weight, with a third of theirs in
    bytes. -/
def weighingTemplate (left : Nat) : DatumTemplate where
  height := 900000
  coinbasevalue := 312500000
  sizelimit := 4000000
  weightlimit := 4000000
  previousblockhashBin := List.replicate 32 7
  defaultWitnessCommitment := ascii "6a24aa21a9ed" ++ List.replicate 64 48
  headerVersion := 2
  blake2bHeadline := []
  txnTotalWeight := UInt32.ofNat (4000000 - left)
  txnTotalSize := UInt32.ofNat ((4000000 - left) / 3)
  coinbasevalue_ne := sampleValue_ne
  witnessCommitment_length := by decide
  headline_length := noHeadline_length
  txnTotalSize_lt := by
    rw [UInt32.toNat_ofNat']
    omega

/-- Settings without tags. -/
def plainTags : CoinbaseTags where
  miningCoinbaseTagPrimary := []
  miningCoinbaseTagSecondary := []
  coinbaseUniqueId := 0
  primeId := 0
  primary_length := by decide
  secondary_length := by decide

/-- A job of such a template, without a supplier. -/
def weighingJob (left : Nat) (outputs : List DatumTxnOutput) :
    CoinbaserJob where
  blockTemplate := weighingTemplate left
  enPrefix := 0
  carouselSupplier := .copy []
  carouselSupplierName := []
  poolAddrScript := poolScript
  availableCoinbaseOutputs := outputs

theorem weighingJob_poolAddrScript (left : Nat) (outputs : List DatumTxnOutput) :
    (weighingJob left outputs).poolAddrScript = poolScript := by
  rw [weighingJob]

/-- Two members of equal weight. -/
def twoMiners : List ChirpMiner :=
  [seasonedMiner memberAddress,
    seasonedMiner (ascii "bc1qrp33g0q5c5txsp9arysrx4k6zdkfs4nce4xj0gdcccefvpysxf3qccfmv3")]

/-- What such a job is filled with for them. -/
def weighingFill (left : Nat) : Option ChirpFill :=
  chirpGlueFillOutputs (fun _ => []) defaultConfig (weighingJob left []).splitJob
    (Qsort.insertionSorter _) (fun seed addr _ => addrNumber seed addr) (fun _ => [])
    (fun _ => ⟨List.replicate 32 0, rfl⟩) emptyEnv 1000000 twoMiners

/-- Its script: the height, an empty tag and the unique ID. -/
def weighingInput : CoinbaseInput where
  bytes := [3, 0xa0, 0xbb, 0x0d, 1, 0, 3, 0xff, 0, 0]
  targetPotIndex := 7

/-- The fill does not read the outputs the job has. -/
theorem weighingFill_eq (left : Nat) (outputs : List DatumTxnOutput) :
    weighingFill left =
      chirpGlueFillOutputs (fun _ => []) defaultConfig (weighingJob left outputs).splitJob
        (Qsort.insertionSorter _) (fun seed addr _ => addrNumber seed addr) (fun _ => [])
        (fun _ => ⟨List.replicate 32 0, rfl⟩) emptyEnv 1000000 twoMiners := rfl

theorem exists_weighingFill (left : Nat) :
    ∃ fill, weighingFill left = some fill ∧ totalCost fill.outputs = 123 := by
  have htotal : (weighingFill left).map (fun fill => totalCost fill.outputs) = some 123 :=
    show (weighingFill 0).map (fun fill => totalCost fill.outputs) = some 123 by decide +kernel
  exact Option.map_eq_some_iff.mp htotal

theorem generateCoinbaseInput_weighing (left : Nat) :
    generateCoinbaseInput plainTags (weighingTemplate left) [] = some weighingInput :=
  show generateCoinbaseInput plainTags (weighingTemplate 0) [] = some weighingInput by
    decide +kernel

theorem cbReqSz_weighing (left : Nat) (outputs : List DatumTxnOutput) :
    cbReqSz (weighingJob left outputs) weighingInput.bytes 4 = 163 :=
  show cbReqSz (weighingJob 0 []) weighingInput.bytes 4 = 163 by decide +kernel

/-- With half of the weight left both members are in the coinbase. -/
theorem halfFull_carriesEveryOutput : ∃ fill, weighingFill 2000000 = some fill ∧
    ∃ set, generateCoinbaseTxns plainTags (weighingJob 2000000 fill.outputs) = some set ∧
      CarriesEveryOutput (weighingJob 2000000 fill.outputs) true (set.coinbase 4) := by
  obtain ⟨fill, hfill, htotal⟩ := exists_weighingFill 2000000
  have hpool : addr2OutputScript (fun _ => []) poolAddress =
      some (weighingJob 2000000 fill.outputs).poolAddrScript := by
    rw [weighingJob_poolAddrScript]
    decide +kernel
  refine ⟨fill, hfill, ?_⟩
  rw [weighingFill_eq 2000000 fill.outputs] at hfill
  apply (carriesEveryOutput_iff hpool hfill rfl (generateCoinbaseInput_weighing 2000000)).mpr
  intro _
  rw [cbReqSz_weighing, htotal]
  show OutputsFit (weighingTemplate 2000000) 163 123
  exact ⟨by decide +kernel, by decide +kernel⟩

/-- With less than 1400 left the coinbase that pays the pool only still fits, and
    the outputs of the members do not. -/
theorem nearlyFull_not_carriesEveryOutput : ∃ fill, weighingFill 1400 = some fill ∧
    CoinbaseFits (weighingTemplate 1400)
      ((emptyCoinbase (weighingJob 1400 fill.outputs) weighingInput.bytes).txn
        (List.replicate 12 0)).length ∧
    ¬ ∃ set, generateCoinbaseTxns plainTags (weighingJob 1400 fill.outputs) = some set ∧
      CarriesEveryOutput (weighingJob 1400 fill.outputs) true (set.coinbase 4) := by
  obtain ⟨fill, hfill, htotal⟩ := exists_weighingFill 1400
  have hempty : ((emptyCoinbase (weighingJob 1400 fill.outputs) weighingInput.bytes).txn
      (List.replicate 12 0)).length = 166 :=
    show ((emptyCoinbase (weighingJob 0 []) weighingInput.bytes).txn
      (List.replicate 12 0)).length = 166 by decide +kernel
  have hne : fill.outputs ≠ [] := by
    intro hnil
    rw [hnil] at htotal
    cases htotal
  refine ⟨fill, hfill, ?_, ?_⟩
  · rw [hempty]
    exact ⟨by decide +kernel, by decide +kernel⟩
  · intro hall
    rw [weighingFill_eq 1400 fill.outputs] at hfill
    have hpayable := payableOutputs_fill _ _ _ _ _ _ _ _ _ _ hfill
    have hpool : (weighingJob 1400 fill.outputs).poolAddrScript.length ≤ 34 := by
      rw [weighingJob_poolAddrScript]
      decide +kernel
    have hfit := (carriesEveryOutput_iff_of_payable hpayable hpool
      (generateCoinbaseInput_weighing 1400)).mp hall hne
    have hnot : ¬ OutputsFit (weighingTemplate 1400) 163 123 := by
      rw [outputsFit_iff]
      decide +kernel
    rw [cbReqSz_weighing] at hfit
    exact hnot (htotal ▸ hfit)

end ChirpGateway
