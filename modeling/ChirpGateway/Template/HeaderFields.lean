import ChirpGateway.Template.Parser

/-!
# The header fields of a template

`datum_gbt_parse_header_fields` (`datum_blocktemplates.c:126-249`) fills seven fields of
a template that may hold those of an earlier reply. Here it works on that record, field by
field.
-/

namespace ChirpGateway

open Bytes Wire

/-! ## Hexadecimal fields -/

/-- `datum_hex_nibble`. -/
def hexNibble (ch : UInt8) : Option Nat :=
  (Hex.digitValue 97 ch).or (Hex.digitValue 65 ch)

/-- The bytes that two digits each stand for. -/
def hexFieldBytes : List UInt8 → Option (List UInt8)
  | [] => some []
  | [_] => none
  | hi :: lo :: rest => do
    let high ← hexNibble hi
    let low ← hexNibble lo
    let bytes ← hexFieldBytes rest
    some (UInt8.ofNat (16 * high + low) :: bytes)

/-- `datum_pow_decode_hex_exact`, which writes up to a character that is no digit. -/
def decodeHexInto : (out text : List UInt8) → Bool × List UInt8
  | [], text => (text.isEmpty, [])
  | byte :: out, hi :: lo :: rest =>
    if isHexDigit hi && isHexDigit lo then
      let later := decodeHexInto out rest
      (later.1, Hex.lookup hi lo :: later.2)
    else (false, byte :: out)
  | byte :: out, _ => (false, byte :: out)

/-- `datum_gbt_try_hex_field`. -/
def tryHexInto (gbt : Json) (key : String) (out : List UInt8) : Bool × List UInt8 :=
  match gbt.stringAt key with
  | none => (false, out)
  | some text => if text.length ≠ out.length * 2 then (false, out) else decodeHexInto out text

theorem length_decodeHexInto (out text : List UInt8) :
    (decodeHexInto out text).2.length = out.length := by
  induction out generalizing text with
  | nil => rfl
  | cons byte out ih =>
    rcases text with _ | ⟨hi, _ | ⟨lo, rest⟩⟩
    · rfl
    · rfl
    · rw [decodeHexInto]
      split_ifs
      · simp [ih]
      · rfl

theorem length_tryHexInto (gbt : Json) (key : String) (out : List UInt8) :
    (tryHexInto gbt key out).2.length = out.length := by
  unfold tryHexInto
  cases gbt.stringAt key with
  | none => rfl
  | some text =>
    dsimp only
    split_ifs
    · rfl
    · exact length_decodeHexInto out text

/-! ## The record -/

namespace HeaderFields

/-- `datum_template_clear_header_fields`. -/
def clear (tdata : HeaderFields) : HeaderFields :=
  { tdata with
    headerVersion := 0
    headerTransactionCount := 0
    headerFlags := 0
    headerTimeOffset := 0
    xorKeyMaskClearBits := 0
    xorKey := List.replicate tdata.xorKey.length 0
    mergeMiningRhs := List.replicate tdata.mergeMiningRhs.length 0
    xorKey_length := by rw [List.length_replicate, tdata.xorKey_length]
    mergeMiningRhs_length := by rw [List.length_replicate, tdata.mergeMiningRhs_length] }

/-- What a reply before this one left does not count. -/
@[simp] theorem clear_eq (tdata : HeaderFields) : tdata.clear = cleared := by
  simp [clear, cleared, tdata.xorKey_length, tdata.mergeMiningRhs_length]

end HeaderFields

section Fill

variable (cfg : ParserConfig) (gbt : Json) (tdata : HeaderFields)

/-- `transaction_count`. -/
def fillTransactionCount : HeaderFields :=
  match gbt.objectGet "transaction_count" with
  | some (.integer count) =>
    if 0 ≤ count then { tdata with headerTransactionCount := UInt32.ofInt count } else tdata
  | _ => tdata

/-- `h1_flags`, or else `header_flags`: all but profile 0 ends the call. -/
def fillFlags : Option HeaderFields :=
  match (gbt.objectGet "h1_flags").or (gbt.objectGet "header_flags") with
  | some (.integer flags) =>
    if 0 ≤ flags ∧ flags ≤ 255 then
      if flags % 4 ≠ 0 then none
      else some { tdata with headerFlags := UInt8.ofNat flags.toNat }
    else some tdata
  | _ => some tdata

/-- `time_offset`. -/
def fillTimeOffset : HeaderFields :=
  match gbt.objectGet "time_offset" with
  | some (.integer value) =>
    if 0 ≤ value ∧ value ≤ 2 ^ 32 - 1 then
      { tdata with headerTimeOffset := UInt32.ofInt value }
    else tdata
  | _ => tdata

/-- `xor_key_mask_clear_bits`. -/
def fillClearBits : HeaderFields :=
  match gbt.objectGet "xor_key_mask_clear_bits" with
  | some (.integer bits) =>
    if 0 ≤ bits ∧ bits ≤ 255 then { tdata with xorKeyMaskClearBits := UInt8.ofNat bits.toNat }
    else tdata
  | _ => tdata

/-- `xor_key` and `merge_mining_rhs`. -/
def fillKeys : HeaderFields :=
  { tdata with
    xorKey := (tryHexInto gbt "xor_key" tdata.xorKey).2
    mergeMiningRhs := (tryHexInto gbt "merge_mining_rhs" tdata.mergeMiningRhs).2
    xorKey_length := by rw [length_tryHexInto, tdata.xorKey_length]
    mergeMiningRhs_length := by rw [length_tryHexInto, tdata.mergeMiningRhs_length] }

/-- The fields behind the version. The record stays as it is where the flags are refused. -/
def fillHeader : Bool × HeaderFields :=
  let tdata := fillTransactionCount gbt tdata
  match fillFlags gbt tdata with
  | none => (false, tdata)
  | some tdata =>
    let tdata := fillKeys gbt (fillClearBits gbt (fillTimeOffset gbt tdata))
    if cfg.miningAllowHasherTimeRolling then
      (true, { tdata with headerFlags := blake2bUseTimeOffset })
    else (true, tdata)

/-- `datum_gbt_parse_header_fields`. -/
def parseHeaderInto : Bool × HeaderFields :=
  if !gbt.isObject then (false, tdata.clear)
  else
    let tdata := tdata.clear
    match powAlgorithms gbt with
    | none => (false, tdata.clear)
    | some (haveBlake2b, haveSha256d) =>
      match headerVersionOf gbt haveBlake2b haveSha256d with
      | none => (false, tdata.clear)
      | some version =>
        let tdata := { tdata with headerVersion := version }
        if version = 0 then (haveSha256d, tdata) else fillHeader cfg gbt tdata

end Fill

/-! ## What a hexadecimal field is read as -/

/-- Two digits that stand in the table: no small letter next to a capital. -/
def OneCase (hi lo : UInt8) : Prop :=
  ∃ first ∈ [97, 65], (Hex.digitValue first hi).isSome ∧ (Hex.digitValue first lo).isSome

/-- The pairs in front of a character that is no digit. -/
def leadingPairs : List UInt8 → List (UInt8 × UInt8)
  | hi :: lo :: rest =>
    if isHexDigit hi && isHexDigit lo then (hi, lo) :: leadingPairs rest else []
  | _ => []

/-- The byte that two digits stand for. -/
def pairByte (pair : UInt8 × UInt8) : UInt8 :=
  UInt8.ofNat (16 * (hexNibble pair.1).getD 0 + (hexNibble pair.2).getD 0)

theorem isHexDigit_eq (ch : UInt8) : isHexDigit ch = (hexNibble ch).isSome := by
  rw [isHexDigit, hexNibble, Option.isSome_or]

theorem hexNibble_lt {ch : UInt8} {value : Nat} (h : hexNibble ch = some value) : value < 16 := by
  unfold hexNibble Hex.digitValue at h
  split_ifs at h <;> simp at h <;> omega

/-- Only a figure is a digit of both cases. -/
theorem digitValue_eq_of_both {ch : UInt8} {small capital : Nat}
    (hsmall : Hex.digitValue 97 ch = some small) (hcapital : Hex.digitValue 65 ch = some capital) :
    small = capital := by
  unfold Hex.digitValue at hsmall hcapital
  split_ifs at hsmall hcapital <;> simp at hsmall hcapital <;> omega

theorem eq_of_digitValue_eq_zero {first : Nat} {ch : UInt8} (h : Hex.digitValue first ch = some 0) :
    ch = 48 := by
  apply UInt8.toNat_inj.mp
  unfold Hex.digitValue at h
  split_ifs at h with hfigure
  · have hzero := Option.some.inj h
    have hvalue : (48 : UInt8).toNat = 48 := rfl
    omega
  · simp at h

theorem hexNibble_of_digitValue {first : Nat} {ch : UInt8} {value : Nat}
    (hfirst : first ∈ [97, 65])
    (h : Hex.digitValue first ch = some value) : hexNibble ch = some value := by
  unfold hexNibble
  rcases List.mem_pair.mp hfirst with rfl | rfl
  · rw [h, Option.some_or]
  · cases hsmall : Hex.digitValue 97 ch with
    | none => rw [h, Option.none_or]
    | some small => rw [digitValue_eq_of_both hsmall h, Option.some_or]

theorem exists_digitValue_of_hexNibble {ch : UInt8} {value : Nat} (h : hexNibble ch = some value) :
    ∃ first ∈ [97, 65], Hex.digitValue first ch = some value := by
  rcases Option.or_eq_some_iff.mp h with h | ⟨-, h⟩
  · exact ⟨97, by simp, h⟩
  · exact ⟨65, by simp, h⟩

theorem pairValue_eq_some_iff {first : Nat} {hi lo byte : UInt8} :
    Hex.pairValue first hi lo = some byte ↔ ∃ high low, Hex.digitValue first hi = some high ∧
      Hex.digitValue first lo = some low ∧ byte = UInt8.ofNat (16 * high + low) := by
  simp only [Hex.pairValue, Option.bind_eq_some_iff, Option.map_eq_some_iff]
  constructor
  · rintro ⟨high, hhigh, low, hlow, rfl⟩
    exact ⟨high, low, hhigh, hlow, rfl⟩
  · rintro ⟨high, low, hhigh, hlow, rfl⟩
    exact ⟨high, hhigh, low, hlow, rfl⟩

section Pair

variable {hi lo : UInt8}

theorem pairByte_of_pairValue {first : Nat} {byte : UInt8} (hfirst : first ∈ [97, 65])
    (h : Hex.pairValue first hi lo = some byte) : pairByte (hi, lo) = byte := by
  obtain ⟨high, low, hhigh, hlow, rfl⟩ := pairValue_eq_some_iff.mp h
  rw [pairByte, hexNibble_of_digitValue hfirst hhigh, hexNibble_of_digitValue hfirst hlow]
  rfl

/-- The table has the value of two digits of one case. -/
theorem lookup_of_oneCase (h : OneCase hi lo) : Hex.lookup hi lo = pairByte (hi, lo) := by
  obtain ⟨first, hfirst, hhi, hlo⟩ := h
  obtain ⟨high, hhigh⟩ := Option.isSome_iff_exists.mp hhi
  obtain ⟨low, hlow⟩ := Option.isSome_iff_exists.mp hlo
  have hpair := pairValue_eq_some_iff.mpr ⟨high, low, hhigh, hlow, rfl⟩
  have hsome : ((Hex.pairValue 97 hi lo).or (Hex.pairValue 65 hi lo)).isSome = true := by
    rcases List.mem_pair.mp hfirst with rfl | rfl
    · simp [hpair]
    · simp [hpair]
  obtain ⟨byte, hbyte⟩ := Option.isSome_iff_exists.mp hsome
  rw [Hex.lookup, hbyte, Option.getD_some]
  rcases Option.or_eq_some_iff.mp hbyte with hbyte | ⟨-, hbyte⟩
  · exact (pairByte_of_pairValue (by simp) hbyte).symm
  · exact (pairByte_of_pairValue (by simp) hbyte).symm

/-- And zero for two digits that share no case. -/
theorem lookup_of_not_oneCase (h : ¬ OneCase hi lo) : Hex.lookup hi lo = 0 := by
  have hnone : ∀ first ∈ [97, 65], Hex.pairValue first hi lo = none := by
    intro first hfirst
    refine Option.eq_none_iff_forall_ne_some.mpr fun byte hbyte => h ?_
    obtain ⟨high, low, hhigh, hlow, -⟩ := pairValue_eq_some_iff.mp hbyte
    exact ⟨first, hfirst, Option.isSome_of_eq_some hhigh, Option.isSome_of_eq_some hlow⟩
  rw [Hex.lookup, hnone 97 (by simp), hnone 65 (by simp)]
  rfl

theorem pairByte_eq_zero_iff (hhi : isHexDigit hi = true) (hlo : isHexDigit lo = true) :
    pairByte (hi, lo) = 0 ↔ hi = 48 ∧ lo = 48 := by
  constructor
  · intro h
    rw [isHexDigit_eq] at hhi hlo
    obtain ⟨high, hhigh⟩ := Option.isSome_iff_exists.mp hhi
    obtain ⟨low, hlow⟩ := Option.isSome_iff_exists.mp hlo
    have hhighLt := hexNibble_lt hhigh
    have hlowLt := hexNibble_lt hlow
    have hnat := congrArg UInt8.toNat h
    rw [pairByte, hhigh, hlow, UInt8.toNat_ofNat'] at hnat
    simp at hnat
    obtain rfl : high = 0 := by omega
    obtain rfl : low = 0 := by omega
    obtain ⟨first, _, hvalue⟩ := exists_digitValue_of_hexNibble hhigh
    obtain ⟨first', _, hvalue'⟩ := exists_digitValue_of_hexNibble hlow
    exact ⟨eq_of_digitValue_eq_zero hvalue, eq_of_digitValue_eq_zero hvalue'⟩
  · rintro ⟨rfl, rfl⟩
    rfl

theorem oneCase_figures : OneCase 48 48 := ⟨97, by simp, rfl, rfl⟩

/-- What the table has is the value of two digits exactly where they share a case. -/
theorem lookup_eq_pairByte_iff (hhi : isHexDigit hi = true) (hlo : isHexDigit lo = true) :
    Hex.lookup hi lo = pairByte (hi, lo) ↔ OneCase hi lo := by
  refine ⟨fun h => ?_, lookup_of_oneCase⟩
  by_contra hcase
  rw [lookup_of_not_oneCase hcase] at h
  obtain ⟨rfl, rfl⟩ := (pairByte_eq_zero_iff hhi hlo).mp h.symm
  exact hcase oneCase_figures

theorem lookup_eq_zero_iff (hhi : isHexDigit hi = true) (hlo : isHexDigit lo = true) :
    Hex.lookup hi lo = 0 ↔ (hi = 48 ∧ lo = 48) ∨ ¬ OneCase hi lo := by
  by_cases hcase : OneCase hi lo
  · rw [lookup_of_oneCase hcase, pairByte_eq_zero_iff hhi hlo]
    simp [hcase]
  · simp [lookup_of_not_oneCase hcase, hcase]

end Pair

/-! ## A text of the right length -/

theorem isHexDigit_of_mem_leadingPairs {text : List UInt8} :
    ∀ pair ∈ leadingPairs text, isHexDigit pair.1 = true ∧ isHexDigit pair.2 = true := by
  induction text using leadingPairs.induct with
  | case1 hi lo rest hdigits ih =>
    rw [leadingPairs, if_pos hdigits]
    exact List.forall_mem_cons.mpr ⟨by simpa using hdigits, ih⟩
  | case2 hi lo rest hdigits =>
    rw [leadingPairs, if_neg hdigits]
    simp
  | case3 text hshort => simp [leadingPairs]

/-- A text of so many pairs, one pair after the other. -/
theorem pairs_induction {motive : Nat → List UInt8 → Prop} (nil : motive 0 [])
    (pair : ∀ size hi lo rest, rest.length = size * 2 → motive size rest →
      motive (size + 1) (hi :: lo :: rest))
    {size : Nat} {text : List UInt8} (hlength : text.length = size * 2) : motive size text := by
  induction size generalizing text with
  | zero =>
    obtain rfl := List.length_eq_zero_iff.mp (by simpa using hlength)
    exact nil
  | succ size ih =>
    rcases text with _ | ⟨hi, _ | ⟨lo, rest⟩⟩
    · simp at hlength
    · simp at hlength
      omega
    · have hrest : rest.length = size * 2 := by
        simp only [List.length_cons] at hlength
        omega
      exact pair size hi lo rest hrest (ih hrest)

/-- The pairs in front are read, and what is behind them stays. -/
theorem decodeHexInto_eq {out text : List UInt8} (hlength : text.length = out.length * 2) :
    (decodeHexInto out text).2 =
      (leadingPairs text).map (fun pair => Hex.lookup pair.1 pair.2) ++
        out.drop (leadingPairs text).length := by
  refine pairs_induction (motive := fun size text => ∀ out : List UInt8, out.length = size →
    (decodeHexInto out text).2 = (leadingPairs text).map (fun pair => Hex.lookup pair.1 pair.2) ++
      out.drop (leadingPairs text).length) ?_ ?_ hlength out rfl
  · intro out hout
    obtain rfl := List.length_eq_zero_iff.mp hout
    rfl
  · intro size hi lo rest _ ih out hout
    obtain ⟨byte, out, rfl⟩ := List.exists_cons_of_length_eq_add_one hout
    rw [decodeHexInto, leadingPairs]
    split_ifs
    · simp [ih out (Nat.succ.inj hout)]
    · simp

/-- A text of digits is its leading pairs, and stands for their bytes. -/
theorem hexFieldBytes_eq {size : Nat} {text : List UInt8} (hlength : text.length = size * 2) :
    hexFieldBytes text =
      if text.all isHexDigit then some ((leadingPairs text).map pairByte) else none := by
  refine pairs_induction (motive := fun _ text => hexFieldBytes text =
    if text.all isHexDigit then some ((leadingPairs text).map pairByte) else none) rfl
    (fun size hi lo rest _ ih => ?_) hlength
  rw [hexFieldBytes, leadingPairs, List.all_cons, List.all_cons, isHexDigit_eq, isHexDigit_eq, ih]
  cases hhi : hexNibble hi with
  | none => simp
  | some high =>
    cases hlo : hexNibble lo with
    | none => simp
    | some low =>
      cases rest.all isHexDigit with
      | false => simp
      | true => simp [pairByte, hhi, hlo]

theorem length_leadingPairs {size : Nat} {text : List UInt8} (hlength : text.length = size * 2)
    (hdigits : text.all isHexDigit = true) : (leadingPairs text).length = size := by
  refine pairs_induction (motive := fun size text => text.all isHexDigit = true →
    (leadingPairs text).length = size) (fun _ => rfl)
    (fun size hi lo rest _ ih hdigits => ?_) hlength hdigits
  obtain ⟨hhi, hlo, hrest⟩ : isHexDigit hi = true ∧ isHexDigit lo = true ∧
      rest.all isHexDigit = true := by
    simpa using hdigits
  simp [leadingPairs, hhi, hlo, ih hrest]

theorem length_leadingPairs_le (text : List UInt8) :
    (leadingPairs text).length * 2 ≤ text.length := by
  induction text using leadingPairs.induct with
  | case1 hi lo rest hdigits ih =>
    rw [leadingPairs, if_pos hdigits]
    simp only [List.length_cons]
    omega
  | case2 hi lo rest hdigits => simp [leadingPairs, hdigits]
  | case3 text hshort => simp [leadingPairs]

/-- What a reply gives for a field of hexadecimal digits, and zero where it gives none. -/
def hexWithin (gbt : Json) (key : String) (size : Nat) : List UInt8 :=
  match gbt.stringAt key with
  | none => List.replicate size 0
  | some text =>
    if text.length = size * 2 then (hexFieldBytes text).getD (List.replicate size 0)
    else List.replicate size 0

/-- A text that is read as what it stands for: digits that share their case, pair by pair,
    or nothing but zeros in front of what is no digit. -/
def ReadWhole (text : List UInt8) : Prop :=
  if text.all isHexDigit then ∀ pair ∈ leadingPairs text, OneCase pair.1 pair.2
  else ∀ pair ∈ leadingPairs text, pair = (48, 48) ∨ ¬ OneCase pair.1 pair.2

theorem decodeHexInto_eq_iff {size : Nat} {text : List UInt8} (hlength : text.length = size * 2) :
    (decodeHexInto (List.replicate size 0) text).2 =
        (hexFieldBytes text).getD (List.replicate size 0) ↔ ReadWhole text := by
  have hdigits := @isHexDigit_of_mem_leadingPairs text
  rw [decodeHexInto_eq (by rw [List.length_replicate, hlength]), hexFieldBytes_eq hlength,
    List.drop_replicate, ReadWhole]
  split_ifs with hall
  · rw [length_leadingPairs hlength hall, Nat.sub_self, List.replicate_zero, List.append_nil,
      Option.getD_some, List.map_inj_left]
    exact forall₂_congr fun pair hpair =>
      lookup_eq_pairByte_iff (hdigits pair hpair).1 (hdigits pair hpair).2
  · have hshort := length_leadingPairs_le text
    have hzero : ∀ pair ∈ leadingPairs text, Hex.lookup pair.1 pair.2 = 0 ↔
        pair = (48, 48) ∨ ¬ OneCase pair.1 pair.2 := fun pair hpair => by
      rw [lookup_eq_zero_iff (hdigits pair hpair).1 (hdigits pair hpair).2, Prod.ext_iff]
    rw [Option.getD_none, List.eq_replicate_iff, ← forall₂_congr hzero]
    simp only [List.length_append, List.length_map, List.length_replicate, List.mem_append,
      List.mem_map, List.mem_replicate]
    constructor
    · rintro ⟨-, hall⟩ pair hpair
      exact hall _ (.inl ⟨pair, hpair, rfl⟩)
    · intro hpairs
      refine ⟨by omega, ?_⟩
      rintro byte (⟨pair, hpair, rfl⟩ | ⟨-, rfl⟩)
      · exact hpairs pair hpair
      · rfl

theorem tryHexInto_eq_iff (gbt : Json) (key : String) (size : Nat) :
    (tryHexInto gbt key (List.replicate size 0)).2 = hexWithin gbt key size ↔
      ∀ text, gbt.stringAt key = some text → text.length = size * 2 → ReadWhole text := by
  unfold tryHexInto hexWithin
  cases gbt.stringAt key with
  | none => simp
  | some text =>
    simp only [List.length_replicate, Option.some.injEq, forall_eq']
    by_cases hlength : text.length = size * 2
    · rw [if_neg (not_not.mpr hlength), if_pos hlength, decodeHexInto_eq_iff hlength]
      simp [hlength]
    · simp [hlength]

/-! ## The whole record -/

/-- The flags of a reply, zero where they are out of range. -/
def flagsWithin (gbt : Json) : Nat :=
  match (gbt.objectGet "h1_flags").or (gbt.objectGet "header_flags") with
  | some (.integer flags) => if 0 ≤ flags ∧ flags ≤ 255 then flags.toNat else 0
  | _ => 0

/-- A record that has what a reply gives, field by field. -/
structure HeaderFilled (cfg : ParserConfig) (gbt : Json) (fields : HeaderFields) : Prop where
  profile : fields.headerFlags &&& 3 = 0
  transactionCount :
    fields.headerTransactionCount.toNat = integerWithin gbt "transaction_count" (2 ^ 32 - 1)
  flags : fields.headerFlags.toNat =
    if cfg.miningAllowHasherTimeRolling then blake2bUseTimeOffset.toNat else flagsWithin gbt
  timeOffset : fields.headerTimeOffset.toNat = integerWithin gbt "time_offset" (2 ^ 32 - 1)
  clearBits : fields.xorKeyMaskClearBits.toNat = integerWithin gbt "xor_key_mask_clear_bits" 255
  xorKey : fields.xorKey = hexWithin gbt "xor_key" 16
  mergeMiningRhs : fields.mergeMiningRhs = hexWithin gbt "merge_mining_rhs" 32

/-- All or nothing. -/
structure HeaderSound (cfg : ParserConfig) (gbt : Json) (run : Bool × HeaderFields) : Prop where
  rejected : run.1 = false → run.2 = .cleared
  plain : run.1 = true → run.2.headerVersion = 0 → run.2 = .cleared
  filled : run.1 = true → run.2.headerVersion ≠ 0 → HeaderFilled cfg gbt run.2

/-- A reply that gives its header a version. -/
def namesVersion (gbt : Json) : Bool :=
  match gbt.objectGet "powalgorithm", gbt.objectGet "header_version" with
  | none, some (.integer version) => UInt32.ofInt version ≠ 0
  | some (.string name), none => name = ascii "blake2b"
  | some (.string name), some (.integer version) =>
    version ≠ 0 && (name = ascii "blake2b" ||
      name = ascii "sha256d" && UInt32.ofInt version = 1)
  | _, _ => false

/-- A reply without the flags, the counts and the texts that go wrong. -/
structure HeaderReadWhole (gbt : Json) : Prop where
  profile : flagsWithin gbt % 4 = 0
  transactionCount : ∀ count, gbt.objectGet "transaction_count" = some (.integer count) →
    2 ^ 32 ≤ count → count % 2 ^ 32 = 0
  xorKey : ∀ text, gbt.stringAt "xor_key" = some text → text.length = 16 * 2 → ReadWhole text
  mergeMiningRhs : ∀ text, gbt.stringAt "merge_mining_rhs" = some text →
    text.length = 32 * 2 → ReadWhole text

section Sound

variable {cfg : ParserConfig} {gbt : Json}

theorem headerSound_cleared (ok : Bool) : HeaderSound cfg gbt (ok, .cleared) :=
  ⟨fun _ => rfl, fun _ _ => rfl, fun _ hversion => absurd rfl hversion⟩

theorem eq_one_iff {version : UInt32} : version = 1 ↔ version ≠ 0 ∧ ¬ version ≥ 2 := by
  rw [ge_iff_le, UInt32.le_iff_toNat_le, ← UInt32.toNat_inj, ne_eq, ← UInt32.toNat_inj]
  have hzero : (0 : UInt32).toNat = 0 := rfl
  have hone : (1 : UInt32).toNat = 1 := rfl
  have htwo : (2 : UInt32).toNat = 2 := rfl
  omega

/-- Which versions the keys of a reply add up to. -/
theorem namesVersion_iff : namesVersion gbt = true ↔
    ∃ haveBlake2b haveSha256d version, powAlgorithms gbt = some (haveBlake2b, haveSha256d) ∧
      headerVersionOf gbt haveBlake2b haveSha256d = some version ∧ version ≠ 0 := by
  unfold namesVersion powAlgorithms headerVersionOf
  have hzero : UInt32.ofInt 0 = 0 := rfl
  cases gbt.objectGet "powalgorithm" with
  | none =>
    cases gbt.objectGet "header_version" with
    | none => simp
    | some member =>
      cases member with
      | integer value =>
        by_cases hvalue : value = 0
        · simp [hvalue, hzero]
        · simp [hvalue]
      | _ => simp
  | some member =>
    cases member with
    | string name =>
      have hne : ascii "sha256d" ≠ ascii "blake2b" := by decide
      by_cases hblake : name = ascii "blake2b"
      · cases gbt.objectGet "header_version" with
        | none => simp [hblake]
        | some member =>
          cases member with
          | integer value => by_cases hvalue : value = 0 <;> simp [hblake, hvalue]
          | _ => simp [hblake]
      · by_cases hsha : name = ascii "sha256d"
        · cases gbt.objectGet "header_version" with
          | none => simp [hsha, hne]
          | some member =>
            cases member with
            | integer value =>
              by_cases hvalue : value = 0
              · simp [hsha, hne, hvalue]
              · simp [hsha, hne, hvalue, eq_one_iff, and_comm]
            | _ => simp [hsha, hne]
        · cases gbt.objectGet "header_version" with
          | none => simp [hblake, hsha]
          | some member => cases member <;> simp [hblake, hsha]
    | _ => simp

theorem isObject_of_namesVersion (h : namesVersion gbt = true) : gbt.isObject = true := by
  cases gbt with
  | object members => rfl
  | _ => cases h

theorem parseHeaderInto_of_not_namesVersion (tdata : HeaderFields)
    (h : namesVersion gbt = false) : ∃ ok, parseHeaderInto cfg gbt tdata = (ok, .cleared) := by
  unfold parseHeaderInto
  cases gbt.isObject with
  | false => exact ⟨false, by simp⟩
  | true =>
    rw [Bool.not_true, if_neg Bool.false_ne_true]
    cases halgorithms : powAlgorithms gbt with
    | none => exact ⟨false, by simp⟩
    | some algorithms =>
      obtain ⟨haveBlake2b, haveSha256d⟩ := algorithms
      cases hversion : headerVersionOf gbt haveBlake2b haveSha256d with
      | none => exact ⟨false, by simp [hversion]⟩
      | some version =>
        have hzero : version = 0 := by
          by_contra hne
          rw [namesVersion_iff.mpr ⟨_, _, version, halgorithms, hversion, hne⟩] at h
          cases h
        subst hzero
        exact ⟨haveSha256d, by simp [hversion]; rfl⟩

/-- The record that the fields behind the version are filled into. -/
def versioned (version : UInt32) : HeaderFields :=
  { HeaderFields.cleared with headerVersion := version }

theorem parseHeaderInto_of_namesVersion (tdata : HeaderFields) (h : namesVersion gbt = true) :
    ∃ version, version ≠ 0 ∧
      parseHeaderInto cfg gbt tdata = fillHeader cfg gbt (versioned version) := by
  obtain ⟨haveBlake2b, haveSha256d, version, halgorithms, hversion, hne⟩ :=
    namesVersion_iff.mp h
  refine ⟨version, hne, ?_⟩
  unfold parseHeaderInto
  rw [isObject_of_namesVersion h, Bool.not_true, if_neg Bool.false_ne_true, halgorithms]
  simp only [hversion, if_neg hne, HeaderFields.clear_eq]
  rfl

theorem fillTransactionCount_eq {tdata : HeaderFields} (h : tdata.headerTransactionCount = 0) :
    fillTransactionCount gbt tdata =
      { tdata with headerTransactionCount := transactionCountOf gbt } := by
  unfold fillTransactionCount transactionCountOf
  cases gbt.objectGet "transaction_count" with
  | none => simp [← h]
  | some member =>
    cases member with
    | integer count => by_cases hcount : 0 ≤ count <;> simp [hcount, ← h]
    | _ => simp [← h]

theorem fillFlags_eq {tdata : HeaderFields} (h : tdata.headerFlags = 0) :
    fillFlags gbt tdata =
      if flagsWithin gbt % 4 ≠ 0 then none
      else some { tdata with headerFlags := UInt8.ofNat (flagsWithin gbt) } := by
  unfold fillFlags flagsWithin
  cases (gbt.objectGet "h1_flags").or (gbt.objectGet "header_flags") with
  | none => simp [← h]
  | some member =>
    cases member with
    | integer flags =>
      by_cases hrange : 0 ≤ flags ∧ flags ≤ 255
      · simp only [if_pos hrange]
        have hprofile : flags % 4 ≠ 0 ↔ flags.toNat % 4 ≠ 0 := by omega
        simp only [hprofile]
      · simp [hrange, ← h]
    | _ => simp [← h]

theorem fillTimeOffset_eq {tdata : HeaderFields} (h : tdata.headerTimeOffset = 0) :
    fillTimeOffset gbt tdata =
      { tdata with
        headerTimeOffset := UInt32.ofNat (integerWithin gbt "time_offset" (2 ^ 32 - 1)) } := by
  unfold fillTimeOffset integerWithin
  cases gbt.objectGet "time_offset" with
  | none => simp [← h]
  | some member =>
    cases member with
    | integer value =>
      by_cases hrange : 0 ≤ value ∧ value ≤ 2 ^ 32 - 1
      · have hstored : UInt32.ofInt value = UInt32.ofNat value.toNat := by
          rw [UInt32.ofInt, Int.emod_eq_of_lt hrange.1 (by omega)]
        simp only [if_pos hrange, hstored]
      · have hzero : tdata.headerTimeOffset = UInt32.ofNat 0 := h
        simp only [if_neg hrange, ← hzero]
    | _ => simp [← h]

theorem fillClearBits_eq {tdata : HeaderFields} (h : tdata.xorKeyMaskClearBits = 0) :
    fillClearBits gbt tdata =
      { tdata with
        xorKeyMaskClearBits :=
          UInt8.ofNat (integerWithin gbt "xor_key_mask_clear_bits" 255) } := by
  unfold fillClearBits integerWithin
  cases gbt.objectGet "xor_key_mask_clear_bits" with
  | none => simp [← h]
  | some member =>
    cases member with
    | integer bits => by_cases hrange : 0 ≤ bits ∧ bits ≤ 255 <;> simp [hrange, ← h]
    | _ => simp [← h]

/-- What is left of a reply whose flags are taken. -/
def filledHeader (cfg : ParserConfig) (gbt : Json) (version : UInt32) : HeaderFields where
  headerVersion := version
  headerTransactionCount := transactionCountOf gbt
  headerFlags :=
    if cfg.miningAllowHasherTimeRolling then blake2bUseTimeOffset
    else UInt8.ofNat (flagsWithin gbt)
  headerTimeOffset := UInt32.ofNat (integerWithin gbt "time_offset" (2 ^ 32 - 1))
  xorKeyMaskClearBits := UInt8.ofNat (integerWithin gbt "xor_key_mask_clear_bits" 255)
  xorKey := (tryHexInto gbt "xor_key" (List.replicate 16 0)).2
  mergeMiningRhs := (tryHexInto gbt "merge_mining_rhs" (List.replicate 32 0)).2
  xorKey_length := by rw [length_tryHexInto, List.length_replicate]
  mergeMiningRhs_length := by rw [length_tryHexInto, List.length_replicate]

theorem fillHeader_eq (version : UInt32) :
    fillHeader cfg gbt (versioned version) =
      if flagsWithin gbt % 4 ≠ 0 then
        (false, { versioned version with headerTransactionCount := transactionCountOf gbt })
      else (true, filledHeader cfg gbt version) := by
  unfold fillHeader
  rw [fillTransactionCount_eq rfl]
  dsimp only
  rw [fillFlags_eq rfl]
  by_cases hprofile : flagsWithin gbt % 4 ≠ 0
  · rw [if_pos hprofile, if_pos hprofile]
  · rw [if_neg hprofile, if_neg hprofile]
    dsimp only
    rw [fillTimeOffset_eq rfl, fillClearBits_eq rfl]
    cases hrolling : cfg.miningAllowHasherTimeRolling with
    | false =>
      rw [if_neg Bool.false_ne_true]
      simp only [filledHeader, hrolling]
      rfl
    | true =>
      rw [if_pos rfl]
      simp only [filledHeader, hrolling]
      rfl

theorem flagsWithin_lt (gbt : Json) : flagsWithin gbt < 256 := by
  unfold flagsWithin
  split
  · split_ifs <;> omega
  · decide

theorem integerWithin_le (gbt : Json) (key : String) {bound : Int} (hbound : 0 ≤ bound) :
    (integerWithin gbt key bound : Int) ≤ bound := by
  unfold integerWithin
  split
  · split_ifs <;> omega
  · exact hbound

theorem transactionCount_eq_iff :
    (transactionCountOf gbt).toNat = integerWithin gbt "transaction_count" (2 ^ 32 - 1) ↔
      ∀ count, gbt.objectGet "transaction_count" = some (.integer count) →
        2 ^ 32 ≤ count → count % 2 ^ 32 = 0 := by
  unfold transactionCountOf integerWithin
  cases gbt.objectGet "transaction_count" with
  | none => simp
  | some member =>
    cases member with
    | integer count =>
      have hstored : (UInt32.ofInt count).toNat = (count % 2 ^ 32).toNat := by
        rw [UInt32.ofInt, UInt32.toNat_ofNat']
        omega
      simp only [Option.some.injEq, Json.integer.injEq, forall_eq']
      split_ifs with hnonneg hrange hrange
      · rw [hstored]
        omega
      · rw [hstored]
        omega
      · omega
      · simp
        omega
    | _ => simp

/-- The flags of profile 0, and the one of the time, have no low bits. -/
theorem profile_filledHeader (version : UInt32) (hprofile : flagsWithin gbt % 4 = 0) :
    (filledHeader cfg gbt version).headerFlags &&& 3 = 0 := by
  unfold filledHeader
  dsimp only
  split_ifs
  · rfl
  · apply UInt8.toNat_inj.mp
    have hthree : (3 : UInt8).toNat = 2 ^ 2 - 1 := rfl
    rw [UInt8.toNat_and, hthree, Nat.and_two_pow_sub_one_eq_mod, UInt8.toNat_ofNat',
      Nat.mod_eq_of_lt (flagsWithin_lt gbt)]
    exact hprofile

/-- A reply whose flags are taken leaves what it gives, but for the count and the texts. -/
theorem headerFilled_filledHeader_iff (version : UInt32) (hprofile : flagsWithin gbt % 4 = 0) :
    HeaderFilled cfg gbt (filledHeader cfg gbt version) ↔ HeaderReadWhole gbt := by
  constructor
  · intro h
    exact ⟨hprofile, transactionCount_eq_iff.mp h.transactionCount,
      (tryHexInto_eq_iff gbt "xor_key" 16).mp h.xorKey,
      (tryHexInto_eq_iff gbt "merge_mining_rhs" 32).mp h.mergeMiningRhs⟩
  · intro h
    have htime : (integerWithin gbt "time_offset" (2 ^ 32 - 1) : Int) ≤ 2 ^ 32 - 1 :=
      integerWithin_le gbt "time_offset" (by decide)
    have hbits : (integerWithin gbt "xor_key_mask_clear_bits" 255 : Int) ≤ 255 :=
      integerWithin_le gbt "xor_key_mask_clear_bits" (by decide)
    have hflags := flagsWithin_lt gbt
    constructor
    case profile => exact profile_filledHeader version hprofile
    case transactionCount => exact transactionCount_eq_iff.mpr h.transactionCount
    case flags =>
      unfold filledHeader
      dsimp only
      split_ifs
      · rfl
      · exact Nat.mod_eq_of_lt hflags
    case timeOffset =>
      exact Nat.mod_eq_of_lt (by omega)
    case clearBits =>
      exact Nat.mod_eq_of_lt (by omega)
    case xorKey => exact (tryHexInto_eq_iff gbt "xor_key" 16).mpr h.xorKey
    case mergeMiningRhs => exact (tryHexInto_eq_iff gbt "merge_mining_rhs" 32).mpr h.mergeMiningRhs

/-- The parser fills all fields or none exactly for the replies that give no other profile,
    no greater count and no text it reads by halves, or do not come to these. -/
theorem headerSound_iff (tdata : HeaderFields) :
    HeaderSound cfg gbt (parseHeaderInto cfg gbt tdata) ↔
      (namesVersion gbt = true → HeaderReadWhole gbt) := by
  cases hnames : namesVersion gbt with
  | false =>
    obtain ⟨ok, hrun⟩ : ∃ ok, parseHeaderInto cfg gbt tdata = (ok, .cleared) :=
      parseHeaderInto_of_not_namesVersion tdata hnames
    rw [hrun]
    exact iff_of_true (headerSound_cleared ok) fun htrue => absurd htrue Bool.false_ne_true
  | true =>
    obtain ⟨version, hne, hrun⟩ : ∃ version, version ≠ 0 ∧
        parseHeaderInto cfg gbt tdata = fillHeader cfg gbt (versioned version) :=
      parseHeaderInto_of_namesVersion tdata hnames
    rw [hrun, fillHeader_eq]
    simp only [forall_true_left]
    by_cases hprofile : flagsWithin gbt % 4 = 0
    · rw [if_neg (not_not.mpr hprofile), ← headerFilled_filledHeader_iff version hprofile]
      constructor
      · exact fun h => h.filled rfl hne
      · exact fun h => ⟨fun hfalse => absurd hfalse.symm Bool.false_ne_true,
          fun _ hzero => absurd hzero hne, fun _ _ => h⟩
    · rw [if_pos hprofile]
      refine iff_of_false (fun h => hne ?_) (fun h => hprofile h.profile)
      exact congrArg HeaderFields.headerVersion (h.rejected rfl)

/-! ## The fields as a value -/

theorem decodeHexInto_replicate (size : Nat) (text : List UInt8) :
    (decodeHexInto (List.replicate size 0) text).2 = decodeHexExact size text := by
  induction size generalizing text with
  | zero => rfl
  | succ size ih =>
    rcases text with _ | ⟨hi, _ | ⟨lo, rest⟩⟩
    · rfl
    · rfl
    · rw [List.replicate_succ, decodeHexInto, decodeHexExact]
      split_ifs
      · simp [ih]
      · rfl

theorem tryHexInto_replicate (gbt : Json) (key : String) (size : Nat) :
    (tryHexInto gbt key (List.replicate size 0)).2 = tryHexField gbt key size := by
  unfold tryHexInto tryHexField
  cases gbt.stringAt key with
  | none => rfl
  | some text =>
    dsimp only
    rw [List.length_replicate, Nat.mul_comm size 2]
    by_cases hlength : text.length = 2 * size
    · rw [if_neg (not_not.mpr hlength), if_pos hlength, decodeHexInto_replicate]
    · rw [if_pos hlength, if_neg hlength]

theorem headerFlagsOf_eq (gbt : Json) : headerFlagsOf gbt =
    if flagsWithin gbt % 4 ≠ 0 then none else some (UInt8.ofNat (flagsWithin gbt)) := by
  unfold headerFlagsOf flagsWithin
  cases (gbt.objectGet "h1_flags").or (gbt.objectGet "header_flags") with
  | none => rfl
  | some member =>
    cases member with
    | integer flags =>
      by_cases hrange : 0 ≤ flags ∧ flags ≤ 255
      · simp only [if_pos hrange]
        have hprofile : flags % 4 ≠ 0 ↔ flags.toNat % 4 ≠ 0 := by omega
        simp only [hprofile]
      · simp [hrange]
    | _ => rfl

/-- What the parser reads does not depend on what the record held. -/
theorem parseHeaderFields_eq (tdata : HeaderFields) :
    parseHeaderFields cfg gbt =
      if (parseHeaderInto cfg gbt tdata).1 then some (parseHeaderInto cfg gbt tdata).2
      else none := by
  unfold parseHeaderFields parseHeaderInto
  cases hobject : gbt.isObject with
  | false =>
    have habsent : ∀ key, gbt.objectGet key = none := by
      cases gbt with
      | object members => cases hobject
      | _ => exact fun _ => rfl
    simp [powAlgorithms, headerVersionOf, habsent]
  | true =>
    rw [Bool.not_true, if_neg Bool.false_ne_true]
    cases powAlgorithms gbt with
    | none => rfl
    | some algorithms =>
      obtain ⟨haveBlake2b, haveSha256d⟩ := algorithms
      simp only [Option.bind_eq_bind, Option.bind_some, HeaderFields.clear_eq]
      cases headerVersionOf gbt haveBlake2b haveSha256d with
      | none => rfl
      | some version =>
        simp only [Option.bind_some]
        by_cases hzero : version = 0
        · subst hzero
          cases haveSha256d <;> rfl
        · have hfill := @fillHeader_eq cfg gbt version
          rw [if_neg hzero, if_neg hzero, headerFlagsOf_eq]
          unfold versioned at hfill
          rw [hfill]
          by_cases hprofile : flagsWithin gbt % 4 ≠ 0
          · rw [if_pos hprofile, if_pos hprofile]
            rfl
          · rw [if_neg hprofile, if_neg hprofile]
            simp only [Option.bind_some, filledHeader, tryHexInto_replicate, if_true]

end Sound

/-- A reply whose flags ask for another profile. -/
def otherProfileReply : Json :=
  .object [("header_version", .integer 2), ("transaction_count", .integer 7),
    ("h1_flags", .integer 1)]

/-- It is refused, and its version stays in the record. -/
theorem otherProfileReply_not_sound :
    ¬ HeaderSound blake2bParser otherProfileReply
      (parseHeaderInto blake2bParser otherProfileReply .cleared) := by
  intro h
  have hversion := congrArg HeaderFields.headerVersion (h.rejected rfl)
  revert hversion
  decide

end ChirpGateway
