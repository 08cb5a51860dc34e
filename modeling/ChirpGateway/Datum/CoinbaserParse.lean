import ChirpGateway.Chirp.CoinbaseCheck
import ChirpGateway.Datum.CoinbaserFetch

/-!
# What the coinbaser parser accepts

`datum_coinbaser_v2_parse` (`datum_coinbaser.c:883-949`) over the memory it reads, and
which splits it installs: records of a value, a length and a script, as long as the
running sum of the values does not exceed the value of the coinbase. The sum is one
of 64 bits.
-/

namespace ChirpGateway

open Wire

/-- What a call leaves: the result, the outputs the job has then, its coinbaser, if that
    is set, and the places in the input that were read. -/
structure CoinbaserParse where
  returned : Nat
  availableCoinbaseOutputs : List DatumTxnOutput
  datumCoinbaserId : Option UInt8
  reads : List Nat

/-- The bytes at some places behind each other. -/
def inputAt (coinbaser : Nat → UInt8) (cidx count : Nat) : List UInt8 :=
  (List.range count).map fun i => coinbaser (cidx + i)

/-- The loop, with room for `left` more outputs. -/
def coinbaserV2Loop (coinbaseValue : UInt64) (coinbaser : Nat → UInt8) (cblen : Nat)
    (datumId : UInt8) : (left cidx : Nat) → (tally : UInt64) →
    (outputs : List DatumTxnOutput) →
    (reads : List Nat) → CoinbaserParse
  | 0, _, _, outputs, reads =>
    { returned := outputs.length, availableCoinbaseOutputs := outputs,
      datumCoinbaserId := some datumId, reads }
  | left + 1, cidx, tally, outputs, reads =>
    let finished (reads : List Nat) : CoinbaserParse :=
      { returned := outputs.length, availableCoinbaseOutputs := outputs,
        datumCoinbaserId := some datumId, reads }
    let failed (reads : List Nat) : CoinbaserParse :=
      { returned := 0, availableCoinbaseOutputs := [], datumCoinbaserId := none, reads }
    if cidx < cblen then
      if cidx + 8 + 1 > cblen then failed reads
      else
        let outval := UInt64.ofNat (leValue (inputAt coinbaser cidx 8))
        let reads := reads ++ List.range' cidx 8
        let cidx := cidx + 8
        if outval + tally > coinbaseValue then finished reads
        else
          let slen := (coinbaser cidx).toNat
          let reads := reads ++ [cidx]
          let cidx := cidx + 1
          if slen < 2 || slen > 64 || cidx + slen > cblen then failed reads
          else
            coinbaserV2Loop coinbaseValue coinbaser cblen datumId left (cidx + slen)
              (tally + outval)
              (outputs ++ [{ outputScript := inputAt coinbaser cidx slen,
                             valueSats := outval.toNat }])
              (reads ++ List.range' cidx slen)
    else finished reads

/-- `datum_coinbaser_v2_parse`, of an input that is not `NULL`. -/
def coinbaserV2ParseAt (coinbaseValue : UInt64) (coinbaser : Nat → UInt8) (cblen : Nat) :
    CoinbaserParse :=
  if cblen < 9 then
    { returned := 0, availableCoinbaseOutputs := [], datumCoinbaserId := none, reads := [] }
  else coinbaserV2Loop coinbaseValue coinbaser cblen (coinbaser 0) 512 1 0 [] [0]

/-! ## The bytes of the input -/

section Input

variable {coinbaseValue : UInt64} {coinbaser : Nat → UInt8} {cblen : Nat} {datumId : UInt8}

theorem length_inputAt (coinbaser : Nat → UInt8) (cidx count : Nat) :
    (inputAt coinbaser cidx count).length = count := by
  rw [inputAt, List.length_map, List.length_range]

theorem inputAt_add (coinbaser : Nat → UInt8) (cidx count more : Nat) :
    inputAt coinbaser cidx (count + more) =
      inputAt coinbaser cidx count ++ inputAt coinbaser (cidx + count) more := by
  simp only [inputAt, List.range_add, List.map_append, List.map_map, Function.comp_def,
    Nat.add_assoc]

theorem take_inputAt (coinbaser : Nat → UInt8) {cidx count : Nat} (h : cidx + count ≤ cblen) :
    (inputAt coinbaser cidx (cblen - cidx)).take count = inputAt coinbaser cidx count := by
  have hsize : cblen - cidx = count + (cblen - (cidx + count)) := by omega
  rw [hsize, inputAt_add, List.take_left' (length_inputAt ..)]

theorem drop_inputAt (coinbaser : Nat → UInt8) {cidx count : Nat} (h : cidx + count ≤ cblen) :
    (inputAt coinbaser cidx (cblen - cidx)).drop count =
      inputAt coinbaser (cidx + count) (cblen - (cidx + count)) := by
  have hsize : cblen - cidx = count + (cblen - (cidx + count)) := by omega
  rw [hsize, inputAt_add, List.drop_left' (length_inputAt ..)]

theorem getD_inputAt (coinbaser : Nat → UInt8) (cidx : Nat) {count i : Nat} (hi : i < count) :
    (inputAt coinbaser cidx count).getD i 0 = coinbaser (cidx + i) := by
  simp [inputAt, hi]

theorem forall_lt_append_range' {reads : List Nat} (hreads : ∀ i ∈ reads, i < cblen)
    {cidx count : Nat} (h : cidx + count ≤ cblen) :
    ∀ i ∈ reads ++ List.range' cidx count, i < cblen := by
  intro i hi
  rcases List.mem_append.mp hi with hold | hnew
  · exact hreads i hold
  · have hlt := (List.mem_range'_1.mp hnew).2
    omega

/-- A parse that leaves what `parsed` says. -/
structure CoinbaserParse.Leaves (parse : CoinbaserParse) (cblen : Nat) (datumId : UInt8)
    (parsed : Option (List DatumTxnOutput)) : Prop where
  outputs : parse.availableCoinbaseOutputs = parsed.getD []
  returned : parse.returned = parse.availableCoinbaseOutputs.length
  datumId : parse.datumCoinbaserId = parsed.map fun _ => datumId
  reads : ∀ i ∈ parse.reads, i < cblen

/-- The loop reads what is left of the input as `parseOutputs` does, and nothing behind
    it. -/
theorem leaves_coinbaserV2Loop (left cidx : Nat) (tally : UInt64) (outputs : List DatumTxnOutput)
    (reads : List Nat) (hcidx : cidx ≤ cblen) (hreads : ∀ i ∈ reads, i < cblen) :
    (coinbaserV2Loop coinbaseValue coinbaser cblen datumId left cidx tally outputs reads).Leaves
      cblen datumId
      ((parseOutputs coinbaseValue left tally (inputAt coinbaser cidx (cblen - cidx))).map
        (outputs ++ ·)) := by
  induction left generalizing cidx tally outputs reads with
  | zero =>
    refine ⟨?_, rfl, rfl, hreads⟩
    exact (List.append_nil outputs).symm
  | succ left ih =>
    rw [coinbaserV2Loop, parseOutputs]
    dsimp only
    by_cases hmore : cidx < cblen
    · have hlen := length_inputAt coinbaser cidx (cblen - cidx)
      have hne : ¬ (inputAt coinbaser cidx (cblen - cidx)).isEmpty = true := by
        rw [List.isEmpty_iff, ← List.length_eq_zero_iff]
        omega
      rw [if_pos hmore, if_neg hne, hlen]
      by_cases hshort : cidx + 8 + 1 > cblen
      · have hcut : cblen - cidx < 9 := by omega
        rw [if_pos hshort, if_pos hcut]
        exact ⟨rfl, rfl, rfl, hreads⟩
      · have hlong : ¬ cblen - cidx < 9 := by omega
        have hvalue := forall_lt_append_range' hreads (show cidx + 8 ≤ cblen by omega)
        have hlength : ∀ i ∈ reads ++ List.range' cidx 8 ++ [cidx + 8], i < cblen :=
          forall_lt_append_range' hvalue (show cidx + 8 + 1 ≤ cblen by omega)
        have hslen := getD_inputAt coinbaser cidx (show 8 < cblen - cidx by omega)
        rw [if_neg hshort, if_neg hlong, take_inputAt coinbaser (by omega), hslen,
          drop_inputAt coinbaser (by omega), length_inputAt]
        generalize UInt64.ofNat (leValue (inputAt coinbaser cidx 8)) = outval
        generalize (coinbaser (cidx + 8)).toNat = slen
        by_cases hover : outval + tally > coinbaseValue
        · rw [if_pos hover, if_pos hover]
          exact ⟨(List.append_nil outputs).symm, rfl, rfl, hvalue⟩
        · rw [if_neg hover, if_neg hover]
          have hfits : (slen < 2 || slen > 64 || cidx + 8 + 1 + slen > cblen) =
              (slen < 2 || 64 < slen || cblen - (cidx + 9) < slen) := by
            have hcut : cidx + 8 + 1 + slen > cblen ↔ cblen - (cidx + 9) < slen := by omega
            simp only [hcut, gt_iff_lt]
          rw [hfits]
          by_cases hbad : (slen < 2 || 64 < slen || cblen - (cidx + 9) < slen) = true
          · rw [if_pos hbad, if_pos hbad]
            exact ⟨rfl, rfl, rfl, hlength⟩
          · rw [if_neg hbad, if_neg hbad]
            have hroom : cidx + 9 + slen ≤ cblen := by
              simp only [Bool.or_eq_true, decide_eq_true_eq, not_or, not_lt] at hbad
              omega
            rw [take_inputAt coinbaser hroom, drop_inputAt coinbaser hroom, Option.map_map]
            have hscript := forall_lt_append_range' hlength hroom
            have hnext := ih (cidx + 9 + slen) (tally + outval)
              (outputs ++ [{ outputScript := inputAt coinbaser (cidx + 9) slen,
                             valueSats := outval.toNat }]) _ hroom hscript
            have hplace : cidx + 8 + 1 = cidx + 9 := rfl
            rw [hplace]
            simpa only [Function.comp_def, List.append_assoc, List.singleton_append] using hnext
    · have hempty : inputAt coinbaser cidx (cblen - cidx) = [] := by
        rw [← List.length_eq_zero_iff, length_inputAt]
        omega
      rw [if_neg hmore, hempty, if_pos List.isEmpty_nil]
      exact ⟨(List.append_nil outputs).symm, rfl, rfl, hreads⟩

/-- The input as a list. -/
def inputBytes (coinbaser : Nat → UInt8) (cblen : Nat) : List UInt8 := inputAt coinbaser 0 cblen

/-- The parser over memory is the one over lists, and stays inside the input. -/
theorem leaves_coinbaserV2ParseAt (coinbaseValue : UInt64) (coinbaser : Nat → UInt8)
    (cblen : Nat) :
    (coinbaserV2ParseAt coinbaseValue coinbaser cblen).Leaves cblen (coinbaser 0)
      ((coinbaserV2Parse coinbaseValue (inputBytes coinbaser cblen)).map Prod.snd) := by
  unfold coinbaserV2ParseAt coinbaserV2Parse
  rw [inputBytes, length_inputAt]
  by_cases hshort : cblen < 9
  · rw [if_pos hshort, if_pos hshort]
    exact ⟨rfl, rfl, rfl, fun i hi => absurd hi List.not_mem_nil⟩
  · rw [if_neg hshort, if_neg hshort]
    have hdrop := drop_inputAt coinbaser (show 0 + 1 ≤ cblen by omega)
    rw [Nat.sub_zero, Nat.zero_add] at hdrop
    have hfirst : ∀ i ∈ [0], i < cblen := by
      intro i hi
      rw [List.mem_singleton.mp hi]
      omega
    have hloop := @leaves_coinbaserV2Loop coinbaseValue coinbaser cblen (coinbaser 0) 512 1 0 [] [0]
      (by omega) hfirst
    rw [hdrop, Option.map_map]
    simpa only [List.nil_append, Function.comp_def] using hloop

end Input

/-! ## What is accepted -/

/-- A record of the input. -/
def DatumTxnOutput.encodeRecord (output : DatumTxnOutput) : List UInt8 :=
  leBytes 8 output.valueSats ++ UInt8.ofNat output.outputScript.length :: output.outputScript

/-- A record as `datum_coinbaser_v2_parse` wants it. -/
def WellFormed (record : DatumTxnOutput) : Prop :=
  record.valueSats < 2 ^ 64 ∧ 2 ≤ record.outputScript.length ∧
    record.outputScript.length ≤ 64

/-- Records that the loop takes, one after the other: each is well formed, and with each
    the 64-bit sum of the values stays within the value of the coinbase. -/
structure Taken (coinbaseValue : UInt64) (records : List DatumTxnOutput) : Prop where
  count : records.length ≤ 512
  formed : ∀ record ∈ records, WellFormed record
  sums : ∀ front, front <+: records → outputsTotal front % 2 ^ 64 ≤ coinbaseValue.toNat

/-- What follows records with the sum `total` is cut off, or has a script of a bad length
    while its value could still be added. -/
def BadFrom (coinbaseValue : UInt64) (total : Nat) (rest : List UInt8) : Prop :=
  rest ≠ [] ∧
    (rest.length < 9 ∨
      (total + leValue (rest.take 8)) % 2 ^ 64 ≤ coinbaseValue.toNat ∧
        ((rest.getD 8 0).toNat < 2 ∨ 64 < (rest.getD 8 0).toNat ∨
          rest.length < 9 + (rest.getD 8 0).toNat))

/-- The records of an input stop at a bad one. -/
def Malformed (coinbaseValue : UInt64) (input : List UInt8) : Prop :=
  ∃ records rest, input.drop 1 = records.flatMap DatumTxnOutput.encodeRecord ++ rest ∧
    Taken coinbaseValue records ∧ records.length < 512 ∧
      BadFrom coinbaseValue (outputsTotal records) rest

/-- An installed split is affordable and is what the input starts with, a bad record
    leaves none, and nothing but the input is read. -/
structure ParsesSplit (coinbaseValue : UInt64) (coinbaser : Nat → UInt8) (cblen : Nat)
    (parse : CoinbaserParse) : Prop where
  count : parse.availableCoinbaseOutputs.length = parse.returned ∧ parse.returned ≤ 512
  records : 0 < parse.returned → ∃ rest, (inputBytes coinbaser cblen).drop 1 =
    parse.availableCoinbaseOutputs.flatMap DatumTxnOutput.encodeRecord ++ rest
  scripts : ∀ output ∈ parse.availableCoinbaseOutputs,
    2 ≤ output.outputScript.length ∧ output.outputScript.length ≤ 64
  affordable : 0 < parse.returned →
    outputsTotal parse.availableCoinbaseOutputs ≤ coinbaseValue.toNat
  malformed : Malformed coinbaseValue (inputBytes coinbaser cblen) →
    parse.returned = 0 ∧ parse.availableCoinbaseOutputs = []
  reads : ∀ i ∈ parse.reads, i < cblen

/-- No records that are taken have an exact sum beyond 64 bits. -/
def CarryFree (coinbaseValue : UInt64) (input : List UInt8) : Prop :=
  ∀ records rest, input.drop 1 = records.flatMap DatumTxnOutput.encodeRecord ++ rest →
    Taken coinbaseValue records → outputsTotal records < 2 ^ 64

/-! ## The loop over records -/

section Records

variable {coinbaseValue : UInt64}

/-- Records that are taken behind others with the sum `total`. -/
structure TakenFrom (coinbaseValue : UInt64) (total : Nat) (records : List DatumTxnOutput) :
    Prop where
  formed : ∀ record ∈ records, WellFormed record
  sums : ∀ front, front <+: records → front ≠ [] →
    (total + outputsTotal front) % 2 ^ 64 ≤ coinbaseValue.toNat

theorem outputsTotal_cons (record : DatumTxnOutput) (records : List DatumTxnOutput) :
    outputsTotal (record :: records) = record.valueSats + outputsTotal records := rfl

theorem takenFrom_nil (total : Nat) : TakenFrom coinbaseValue total [] where
  formed _ hrecord := absurd hrecord List.not_mem_nil
  sums _ hfront hne := absurd (List.prefix_nil.mp hfront) hne

theorem takenFrom_cons_iff {total : Nat} {record : DatumTxnOutput}
    {records : List DatumTxnOutput} :
    TakenFrom coinbaseValue total (record :: records) ↔
      WellFormed record ∧ (total + record.valueSats) % 2 ^ 64 ≤ coinbaseValue.toNat ∧
        TakenFrom coinbaseValue (total + record.valueSats) records := by
  constructor
  · rintro ⟨hformed, hsums⟩
    have hfirst := hsums [record] (List.prefix_append [record] records) (List.cons_ne_nil _ _)
    refine ⟨hformed record List.mem_cons_self, hfirst, ?_, ?_⟩
    · intro other hother
      exact hformed other (List.mem_cons_of_mem _ hother)
    · intro front hfront _
      have hmore := hsums (record :: front) ((List.prefix_cons_inj record).mpr hfront)
        (List.cons_ne_nil _ _)
      rwa [outputsTotal_cons, ← Nat.add_assoc] at hmore
  · rintro ⟨hrecord, hfirst, hformed, hsums⟩
    refine ⟨List.forall_mem_cons.mpr ⟨hrecord, hformed⟩, ?_⟩
    intro front hfront hne
    cases front with
    | nil => exact absurd rfl hne
    | cons other front =>
      obtain ⟨rfl, hmore⟩ := List.cons_prefix_cons.mp hfront
      rw [outputsTotal_cons, ← Nat.add_assoc]
      by_cases hlast : front = []
      · rw [hlast]
        exact hfirst
      · exact hsums front hmore hlast

theorem taken_iff {records : List DatumTxnOutput} :
    Taken coinbaseValue records ↔
      records.length ≤ 512 ∧ TakenFrom coinbaseValue 0 records := by
  constructor
  · rintro ⟨hcount, hformed, hsums⟩
    refine ⟨hcount, hformed, ?_⟩
    intro front hfront _
    rw [Nat.zero_add]
    exact hsums front hfront
  · rintro ⟨hcount, hformed, hsums⟩
    refine ⟨hcount, hformed, ?_⟩
    intro front hfront
    by_cases hnone : front = []
    · rw [hnone]
      exact Nat.zero_le _
    · rw [← Nat.zero_add (outputsTotal front)]
      exact hsums front hfront hnone

theorem length_encodeRecord (record : DatumTxnOutput) :
    record.encodeRecord.length = 9 + record.outputScript.length := by
  rw [DatumTxnOutput.encodeRecord, List.length_append, length_leBytes, List.length_cons]
  omega

/-- A value can be added in 64 bits. -/
theorem add_tally_le_iff {value tally : UInt64} {total : Nat}
    (htally : tally.toNat = total % 2 ^ 64) :
    ¬ value + tally > coinbaseValue ↔
      (total + value.toNat) % 2 ^ 64 ≤ coinbaseValue.toNat := by
  rw [gt_iff_lt, UInt64.lt_iff_toNat_lt, not_lt, UInt64.toNat_add, htally, Nat.add_mod_mod,
    Nat.add_comm]

theorem toNat_add_tally {value tally : UInt64} {total : Nat}
    (htally : tally.toNat = total % 2 ^ 64) :
    (tally + value).toNat = (total + value.toNat) % 2 ^ 64 := by
  rw [UInt64.toNat_add, htally, Nat.mod_add_mod]

/-- A record in front is taken if its value can be added. -/
theorem parseOutputs_encodeRecord {left total : Nat} {tally : UInt64} {record : DatumTxnOutput}
    (hrecord : WellFormed record) (htally : tally.toNat = total % 2 ^ 64)
    (hsum : (total + record.valueSats) % 2 ^ 64 ≤ coinbaseValue.toNat) (rest : List UInt8) :
    parseOutputs coinbaseValue (left + 1) tally (record.encodeRecord ++ rest) =
      (parseOutputs coinbaseValue left (tally + UInt64.ofNat record.valueSats) rest).map
        (record :: ·) := by
  obtain ⟨hvalue, hlow, hhigh⟩ := hrecord
  have hslen : (UInt8.ofNat record.outputScript.length).toNat = record.outputScript.length :=
    UInt8.toNat_ofNat_of_lt' (by rw [UInt8.size]; omega)
  have houtval : (UInt64.ofNat record.valueSats).toNat = record.valueSats :=
    UInt64.toNat_ofNat_of_lt' hvalue
  have hbytes : record.encodeRecord ++ rest =
      leBytes 8 record.valueSats ++ (UInt8.ofNat record.outputScript.length ::
        (record.outputScript ++ rest)) := by
    rw [DatumTxnOutput.encodeRecord, List.append_assoc, List.cons_append]
  have hlen : (record.encodeRecord ++ rest).length =
      9 + record.outputScript.length + rest.length := by
    rw [List.length_append, length_encodeRecord]
  have hne : ¬ (record.encodeRecord ++ rest).isEmpty = true := by
    rw [List.isEmpty_iff, ← List.length_eq_zero_iff]
    omega
  have htake : (record.encodeRecord ++ rest).take 8 = leBytes 8 record.valueSats := by
    rw [hbytes, List.take_left' (length_leBytes 8 _)]
  have hget : (record.encodeRecord ++ rest).getD 8 0 =
      UInt8.ofNat record.outputScript.length := by
    rw [hbytes, List.getD_append_right _ _ _ _ (by rw [length_leBytes]), length_leBytes]
    rfl
  have hdrop : (record.encodeRecord ++ rest).drop 9 = record.outputScript ++ rest := by
    have hnine : 9 = (leBytes 8 record.valueSats).length + 1 := by rw [length_leBytes]
    rw [hbytes, hnine, List.drop_length_add_append, List.drop_one, List.tail_cons]
  rw [parseOutputs, if_neg hne, if_neg (by omega), htake, hget, hdrop, hslen,
    leValue_leBytes_of_lt hvalue]
  dsimp only
  have hfits : ¬ UInt64.ofNat record.valueSats + tally > coinbaseValue := by
    rw [add_tally_le_iff htally, houtval]
    exact hsum
  have hgood : ¬ (record.outputScript.length < 2 || 64 < record.outputScript.length ||
      (record.outputScript ++ rest).length < record.outputScript.length) = true := by
    simp only [List.length_append, Bool.or_eq_true, decide_eq_true_eq, not_or, not_lt]
    omega
  rw [if_neg hfits, if_neg hgood, List.drop_left' rfl, List.take_left' rfl, houtval]

/-- Any records that are taken are in front of what is parsed behind them. -/
theorem exists_parseOutputs_append {records : List DatumTxnOutput} {total left : Nat}
    {tally : UInt64} (htaken : TakenFrom coinbaseValue total records)
    (htally : tally.toNat = total % 2 ^ 64) (rest : List UInt8) :
    ∃ tally' : UInt64, tally'.toNat = (total + outputsTotal records) % 2 ^ 64 ∧
      parseOutputs coinbaseValue (left + records.length) tally
          (records.flatMap DatumTxnOutput.encodeRecord ++ rest) =
        (parseOutputs coinbaseValue left tally' rest).map (records ++ ·) := by
  induction records generalizing total tally with
  | nil =>
    refine ⟨tally, htally, ?_⟩
    simp
  | cons record records ih =>
    obtain ⟨hrecord, hsum, hmore⟩ := takenFrom_cons_iff.mp htaken
    have hvalue : (UInt64.ofNat record.valueSats).toNat = record.valueSats :=
      UInt64.toNat_ofNat_of_lt' hrecord.1
    have hnext := @toNat_add_tally (UInt64.ofNat record.valueSats) tally total htally
    rw [hvalue] at hnext
    obtain ⟨tally', htally', hparse⟩ := ih hmore hnext
    refine ⟨tally', ?_, ?_⟩
    · rw [htally', outputsTotal_cons, Nat.add_assoc]
    · rw [List.flatMap_cons, List.append_assoc, List.length_cons, ← Nat.add_assoc,
        parseOutputs_encodeRecord hrecord htally hsum, hparse, Option.map_map]
      rfl

/-- What the parser makes of any bytes. -/
def ParseSpec (coinbaseValue : UInt64) (left total : Nat) (bytes : List UInt8) :
    Option (List DatumTxnOutput) → Prop
  | some outputs => outputs.length ≤ left ∧ TakenFrom coinbaseValue total outputs ∧
      ∃ rest, bytes = outputs.flatMap DatumTxnOutput.encodeRecord ++ rest
  | none => ∃ records rest, records.length < left ∧ TakenFrom coinbaseValue total records ∧
      bytes = records.flatMap DatumTxnOutput.encodeRecord ++ rest ∧
      BadFrom coinbaseValue (total + outputsTotal records) rest

theorem parseSpec_nil (left total : Nat) (bytes : List UInt8) :
    ParseSpec coinbaseValue left total bytes (some []) :=
  ⟨Nat.zero_le _, takenFrom_nil total, bytes, rfl⟩

/-- Bytes that hold a whole record start with it. -/
theorem eq_encodeRecord_append {bytes : List UInt8} {slen : Nat}
    (hslen : (bytes.getD 8 0).toNat = slen) (hlen : 9 + slen ≤ bytes.length) :
    bytes = (DatumTxnOutput.encodeRecord
      { outputScript := (bytes.drop 9).take slen, valueSats := leValue (bytes.take 8) }) ++
        (bytes.drop 9).drop slen := by
  have hscript : ((bytes.drop 9).take slen).length = slen := by
    rw [List.length_take, List.length_drop]
    omega
  have hvalue : leBytes 8 (leValue (bytes.take 8)) = bytes.take 8 := by
    have htake : (bytes.take 8).length = 8 := by
      rw [List.length_take]
      omega
    have hlt := leValue_lt (bytes.take 8)
    rw [htake] at hlt
    apply eq_of_leValue_eq (by rw [length_leBytes, htake])
    rw [leValue_leBytes_of_lt hlt]
  have hbyte : UInt8.ofNat slen = bytes.getD 8 0 := by
    rw [← hslen, UInt8.ofNat_toNat]
  have height : bytes.drop 8 = bytes.getD 8 0 :: bytes.drop 9 := by
    rw [List.drop_eq_getElem_cons (by omega), List.getD_eq_getElem _ _ (by omega)]
  rw [DatumTxnOutput.encodeRecord, hscript, hvalue, hbyte, List.append_assoc, List.cons_append,
    List.take_append_drop, ← height, List.take_append_drop]

theorem parseSpec_parseOutputs {left total : Nat} {tally : UInt64} {bytes : List UInt8}
    (htally : tally.toNat = total % 2 ^ 64) :
    ParseSpec coinbaseValue left total bytes (parseOutputs coinbaseValue left tally bytes) := by
  induction left generalizing total tally bytes with
  | zero =>
    rw [parseOutputs]
    exact parseSpec_nil 0 total bytes
  | succ left ih =>
    -- the input ends, is cut off, costs too much, or has a record in front
    rw [parseOutputs]
    by_cases hend : bytes.isEmpty = true
    · rw [if_pos hend]
      exact parseSpec_nil _ total bytes
    · rw [if_neg hend]
      have hne : bytes ≠ [] := fun hnil => hend (List.isEmpty_iff.mpr hnil)
      have hbad (h : bytes.length < 9 ∨
          (total + leValue (bytes.take 8)) % 2 ^ 64 ≤ coinbaseValue.toNat ∧
            ((bytes.getD 8 0).toNat < 2 ∨ 64 < (bytes.getD 8 0).toNat ∨
              bytes.length < 9 + (bytes.getD 8 0).toNat)) :
          ParseSpec coinbaseValue (left + 1) total bytes none :=
        ⟨[], bytes, Nat.succ_pos left, takenFrom_nil total, rfl, hne, h⟩
      by_cases hcut : bytes.length < 9
      · rw [if_pos hcut]
        exact hbad (.inl hcut)
      · rw [if_neg hcut]
        dsimp only
        have hvalueLt : leValue (bytes.take 8) < 2 ^ 64 := by
          have hlt := leValue_lt (bytes.take 8)
          rw [List.length_take, Nat.min_eq_left (by omega)] at hlt
          exact hlt
        have houtval : (UInt64.ofNat (leValue (bytes.take 8))).toNat = leValue (bytes.take 8) :=
          UInt64.toNat_ofNat_of_lt' hvalueLt
        by_cases hover : UInt64.ofNat (leValue (bytes.take 8)) + tally > coinbaseValue
        · rw [if_pos hover]
          exact parseSpec_nil _ total bytes
        · rw [if_neg hover]
          have hsum := (add_tally_le_iff htally).mp hover
          rw [houtval] at hsum
          by_cases hscript : ((bytes.getD 8 0).toNat < 2 || 64 < (bytes.getD 8 0).toNat ||
              (bytes.drop 9).length < (bytes.getD 8 0).toNat) = true
          · rw [if_pos hscript]
            simp only [List.length_drop, Bool.or_eq_true, decide_eq_true_eq] at hscript
            exact hbad (.inr ⟨hsum, by omega⟩)
          · rw [if_neg hscript]
            simp only [List.length_drop, Bool.or_eq_true, decide_eq_true_eq, not_or,
              not_lt] at hscript
            have hrecord := eq_encodeRecord_append rfl
              (show 9 + (bytes.getD 8 0).toNat ≤ bytes.length by omega)
            have hformed : WellFormed
                { outputScript := (bytes.drop 9).take (bytes.getD 8 0).toNat
                  valueSats := leValue (bytes.take 8) } := by
              refine ⟨hvalueLt, ?_⟩
              dsimp only
              rw [List.length_take, List.length_drop]
              omega
            have hnext := @toNat_add_tally (UInt64.ofNat (leValue (bytes.take 8))) tally total
              htally
            rw [houtval] at hnext ⊢
            have hrest := @ih _ _ ((bytes.drop 9).drop (bytes.getD 8 0).toNat) hnext
            generalize parseOutputs coinbaseValue left
              (tally + UInt64.ofNat (leValue (bytes.take 8)))
              ((bytes.drop 9).drop (bytes.getD 8 0).toNat) = parsed at hrest ⊢
            cases parsed with
            | some outputs =>
              obtain ⟨hcount, htaken, more, hmore⟩ := hrest
              refine ⟨Nat.succ_le_succ hcount, takenFrom_cons_iff.mpr ⟨hformed, hsum, htaken⟩,
                more, ?_⟩
              rw [List.flatMap_cons, List.append_assoc, ← hmore]
              exact hrecord
            | none =>
              obtain ⟨records, more, hcount, htaken, hmore, hbadRest⟩ := hrest
              refine ⟨_ :: records, more, Nat.succ_lt_succ hcount,
                takenFrom_cons_iff.mpr ⟨hformed, hsum, htaken⟩, ?_, ?_⟩
              · rw [List.flatMap_cons, List.append_assoc, ← hmore]
                exact hrecord
              · rw [outputsTotal_cons, ← Nat.add_assoc]
                exact hbadRest

/-- A bad record behind those that are taken fails. -/
theorem parseOutputs_of_badFrom {records : List DatumTxnOutput} {rest : List UInt8}
    (htaken : TakenFrom coinbaseValue 0 records) (hcount : records.length < 512)
    (hbad : BadFrom coinbaseValue (outputsTotal records) rest) :
    parseOutputs coinbaseValue 512 0 (records.flatMap DatumTxnOutput.encodeRecord ++ rest) =
      none := by
  obtain ⟨left, hleft⟩ : ∃ left, 512 = left + 1 + records.length :=
    ⟨511 - records.length, by omega⟩
  obtain ⟨tally, htally, hparse⟩ :=
    @exists_parseOutputs_append coinbaseValue records 0 (left + 1) 0 htaken rfl rest
  rw [Nat.zero_add] at htally
  obtain ⟨hne, hrest⟩ := hbad
  rw [hleft, hparse, Option.map_eq_none_iff, parseOutputs]
  have hmore : ¬ rest.isEmpty = true := fun hempty => hne (List.isEmpty_iff.mp hempty)
  rw [if_neg hmore]
  by_cases hcut : rest.length < 9
  · rw [if_pos hcut]
  · obtain ⟨hsum, hslen⟩ := hrest.resolve_left hcut
    have hlt := leValue_lt (rest.take 8)
    rw [List.length_take, Nat.min_eq_left (by omega)] at hlt
    have houtval : (UInt64.ofNat (leValue (rest.take 8))).toNat = leValue (rest.take 8) :=
      UInt64.toNat_ofNat_of_lt' hlt
    have hfits : ¬ UInt64.ofNat (leValue (rest.take 8)) + tally > coinbaseValue := by
      rw [add_tally_le_iff htally, houtval]
      exact hsum
    rw [if_neg hcut]
    dsimp only
    rw [if_neg hfits, if_pos]
    simp only [List.length_drop, Bool.or_eq_true, decide_eq_true_eq]
    omega

end Records

/-! ## What is installed -/

section Installed

variable {coinbaseValue : UInt64} {coinbaser : Nat → UInt8} {cblen : Nat}

/-- The outputs of the job, from the input as a list. -/
theorem coinbaserV2Parse_eq (coinbaseValue : UInt64) (input : List UInt8) :
    (coinbaserV2Parse coinbaseValue input).map Prod.snd =
      if input.length < 9 then none else parseOutputs coinbaseValue 512 0 (input.drop 1) := by
  unfold coinbaserV2Parse
  by_cases hshort : input.length < 9
  · rw [if_pos hshort, if_pos hshort]
    rfl
  · rw [if_neg hshort, if_neg hshort]
    cases parseOutputs coinbaseValue 512 0 (input.drop 1) with
    | none => rfl
    | some outputs => rfl

theorem coinbaserV2Parse_of_malformed {input : List UInt8} (h : Malformed coinbaseValue input) :
    (coinbaserV2Parse coinbaseValue input).map Prod.snd = none := by
  obtain ⟨records, rest, hinput, htaken, hcount, hbad⟩ := h
  rw [coinbaserV2Parse_eq]
  split_ifs
  · rfl
  · rw [hinput]
    exact parseOutputs_of_badFrom (taken_iff.mp htaken).2 hcount hbad

/-- A failed parse is one of a bad record, or of an input without any. -/
theorem malformed_of_none {input : List UInt8} (hsome : 1 < input.length)
    (h : (coinbaserV2Parse coinbaseValue input).map Prod.snd = none) :
    Malformed coinbaseValue input := by
  rw [coinbaserV2Parse_eq] at h
  by_cases hshort : input.length < 9
  · refine ⟨[], input.drop 1, rfl, taken_iff.mpr ⟨Nat.zero_le _, takenFrom_nil 0⟩, by decide,
      ?_,
      .inl ?_⟩
    · rw [Ne, List.drop_eq_nil_iff, not_le]
      exact hsome
    · rw [List.length_drop]
      omega
  · rw [if_neg hshort] at h
    have hspec := @parseSpec_parseOutputs coinbaseValue 512 0 0 (input.drop 1) rfl
    rw [h] at hspec
    obtain ⟨records, rest, hcount, htaken, hinput, hbad⟩ := hspec
    rw [Nat.zero_add] at hbad
    exact ⟨records, rest, hinput, taken_iff.mpr ⟨hcount.le, htaken⟩, hcount, hbad⟩

/-- What is installed is taken from the front of the input. -/
theorem taken_of_some {input : List UInt8} {outputs : List DatumTxnOutput}
    (h : (coinbaserV2Parse coinbaseValue input).map Prod.snd = some outputs) :
    Taken coinbaseValue outputs ∧
      ∃ rest, input.drop 1 = outputs.flatMap DatumTxnOutput.encodeRecord ++ rest := by
  rw [coinbaserV2Parse_eq] at h
  split_ifs at h
  have hspec := @parseSpec_parseOutputs coinbaseValue 512 0 0 (input.drop 1) rfl
  rw [h] at hspec
  obtain ⟨hcount, htaken, hrest⟩ := hspec
  exact ⟨taken_iff.mpr ⟨hcount, htaken⟩, hrest⟩

/-- All records that can be taken are installed. -/
theorem isPrefix_of_some {input : List UInt8} {outputs records : List DatumTxnOutput}
    {rest : List UInt8} (h : (coinbaserV2Parse coinbaseValue input).map Prod.snd = some outputs)
    (htaken : Taken coinbaseValue records)
    (hinput : input.drop 1 = records.flatMap DatumTxnOutput.encodeRecord ++ rest) :
    records <+: outputs := by
  obtain ⟨hcount, hfrom⟩ := taken_iff.mp htaken
  obtain ⟨left, hleft⟩ : ∃ left, 512 = left + records.length :=
    ⟨512 - records.length, by omega⟩
  obtain ⟨tally, -, hparse⟩ :=
    @exists_parseOutputs_append coinbaseValue records 0 left 0 hfrom rfl rest
  rw [coinbaserV2Parse_eq] at h
  split_ifs at h
  rw [hinput, hleft, hparse] at h
  obtain ⟨more, -, rfl⟩ := Option.map_eq_some_iff.mp h
  exact List.prefix_append records more

end Installed

/-- The parser keeps its promises exactly where a bad record discards everything, or no
    records that pass its test have an exact sum beyond 64 bits. -/
theorem parsesSplit_iff (coinbaseValue : UInt64) (coinbaser : Nat → UInt8) (cblen : Nat) :
    ParsesSplit coinbaseValue coinbaser cblen (coinbaserV2ParseAt coinbaseValue coinbaser cblen) ↔
      Malformed coinbaseValue (inputBytes coinbaser cblen) ∨
        CarryFree coinbaseValue (inputBytes coinbaser cblen) := by
  have hleaves := leaves_coinbaserV2ParseAt coinbaseValue coinbaser cblen
  generalize coinbaserV2ParseAt coinbaseValue coinbaser cblen = parse at hleaves ⊢
  cases hparsed : (coinbaserV2Parse coinbaseValue (inputBytes coinbaser cblen)).map Prod.snd with
  | none =>
    rw [hparsed] at hleaves
    have hnone : parse.availableCoinbaseOutputs = [] := hleaves.outputs
    have hzero : parse.returned = 0 := by
      rw [hleaves.returned, hnone]
      rfl
    refine iff_of_true ?_ ?_
    · refine ⟨⟨hleaves.returned.symm, by omega⟩, ?_, ?_, ?_, fun _ => ⟨hzero, hnone⟩,
        hleaves.reads⟩
      · intro hpos
        omega
      · intro output houtput
        rw [hnone] at houtput
        cases houtput
      · intro hpos
        omega
    · by_cases hsome : 1 < (inputBytes coinbaser cblen).length
      · exact .inl (malformed_of_none hsome hparsed)
      · right
        intro records rest hinput htaken
        rw [List.drop_eq_nil_of_le (by omega)] at hinput
        cases records with
        | nil => exact Nat.two_pow_pos 64
        | cons record records =>
          have hlen := congrArg List.length hinput
          rw [List.flatMap_cons, List.length_append, List.length_append,
            length_encodeRecord, List.length_nil] at hlen
          omega
  | some outputs =>
    rw [hparsed] at hleaves
    have houtputs : parse.availableCoinbaseOutputs = outputs := hleaves.outputs
    obtain ⟨htaken, hrest⟩ := taken_of_some hparsed
    have hsound : ¬ Malformed coinbaseValue (inputBytes coinbaser cblen) := by
      intro hbad
      rw [coinbaserV2Parse_of_malformed hbad] at hparsed
      cases hparsed
    constructor
    · intro hsplit
      right
      intro records rest hinput hrecords
      obtain ⟨more, hmore⟩ := isPrefix_of_some hparsed hrecords hinput
      have hvalue := coinbaseValue.toNat_lt
      by_cases hpos : 0 < parse.returned
      · have htotal := hsplit.affordable hpos
        rw [houtputs, ← hmore, outputsTotal_append] at htotal
        omega
      · rw [hleaves.returned, houtputs, ← hmore, List.length_append] at hpos
        have hnil : records = [] := List.eq_nil_of_length_eq_zero (by omega)
        rw [hnil]
        exact Nat.two_pow_pos 64
    · rintro (hbad | hfree)
      · exact absurd hbad hsound
      · obtain ⟨rest, hinput⟩ := hrest
        refine ⟨⟨hleaves.returned.symm, ?_⟩, ?_, ?_, ?_, fun hbad => absurd hbad hsound,
          hleaves.reads⟩
        · rw [hleaves.returned, houtputs]
          exact htaken.count
        · intro _
          rw [houtputs]
          exact ⟨rest, hinput⟩
        · intro output houtput
          rw [houtputs] at houtput
          exact (htaken.formed output houtput).2
        · intro _
          have htotal := htaken.sums outputs (List.prefix_refl _)
          rw [Nat.mod_eq_of_lt (hfree outputs rest hinput htaken)] at htotal
          rw [houtputs]
          exact htotal

/-- A split of a coinbase of 100: an output of 1, and one of all the rest of 64 bits. -/
def carryingCoinbaser : List UInt8 :=
  7 :: [{ outputScript := [0x51, 0x51], valueSats := 1 },
    { outputScript := [0x51, 0x51],
      valueSats := 2 ^ 64 - 1 : DatumTxnOutput }].flatMap DatumTxnOutput.encodeRecord

/-- Their sum is zero in 64 bits, and both are installed. -/
theorem not_parsesSplit_carryingCoinbaser :
    ¬ ParsesSplit 100 (carryingCoinbaser.getD · 0) 23
      (coinbaserV2ParseAt 100 (carryingCoinbaser.getD · 0) 23) := by
  intro hsplit
  have htotal := hsplit.affordable
  revert htotal
  decide +kernel

end ChirpGateway
