import ChirpGateway.Address.Bech32Code

/-!
# From a witness program to its address and back

`segwit_addr_encode` (`thirdparty_segwit_addr.c:150-189`) and `segwit_addr_decode` undo each
other: the bits of the program are regrouped by fives and padded, and what was padded is
checked when they are regrouped to bytes.
-/

namespace ChirpGateway

open Bytes

/-- `convert_bits` from bytes to groups of five bits, with padding. A byte fills one group or
    two. -/
def convertBitsPad : (bytes : List UInt8) → (val bits : Nat) → List Nat
  | [], val, bits => if bits = 0 then [] else [((val <<< (5 - bits)) % 2 ^ 32) &&& 0x1f]
  | byte :: bytes, val, bits =>
    let val := ((val <<< 8) ||| byte.toNat) % 2 ^ 32
    if bits + 8 ≥ 10 then
      ((val >>> (bits + 8 - 5)) &&& 0x1f) :: ((val >>> (bits + 8 - 10)) &&& 0x1f) ::
        convertBitsPad bytes val (bits + 8 - 10)
    else
      ((val >>> (bits + 8 - 5)) &&& 0x1f) :: convertBitsPad bytes val (bits + 8 - 5)

/-- `segwit_addr_encode`. -/
def segwitAddrEncode (hrp : List UInt8) (witver : Nat) (witprog : List UInt8) :
    Option (List UInt8) :=
  if witver > 16 then none
  else if witver = 0 && witprog.length ≠ 20 && witprog.length ≠ 32 then none
  else if witprog.length < 2 || witprog.length > 40 then none
  else
    bech32Encode hrp (witver :: convertBitsPad witprog 0 0)
      (if witver > 0 then .bech32m else .bech32)

/-! ## Regrouping -/

/-- The number that bytes stand for. -/
def byteValue (bytes : List UInt8) : Nat := BigEndian.value 256 (bytes.map UInt8.toNat)

theorem byteValue_cons (byte : UInt8) (bytes : List UInt8) :
    byteValue (byte :: bytes) = byte.toNat * 256 ^ bytes.length + byteValue bytes := by
  rw [byteValue, List.map_cons, BigEndian.value_cons, List.length_map]
  rfl

theorem byteValue_inj {bytes others : List UInt8} (hlength : bytes.length = others.length)
    (hvalue : byteValue bytes = byteValue others) : bytes = others := by
  have hlt (text : List UInt8) : ∀ d ∈ text.map UInt8.toNat, d < 256 := by
    intro d hd
    obtain ⟨byte, -, rfl⟩ := List.mem_map.mp hd
    exact byte.toNat_lt
  have hmap := BigEndian.value_inj (by omega) (by simpa using hlength) (hlt bytes) (hlt others)
    hvalue
  exact List.map_injective_iff.mpr (fun _ _ => UInt8.toNat_inj.mp) hmap

/-- The highest bits of a number are taken off. -/
theorem mod_take_off (val : Nat) {width bits : Nat} (h : width ≤ bits) :
    val % 2 ^ bits = val / 2 ^ (bits - width) % 2 ^ width * 2 ^ (bits - width) +
      val % 2 ^ (bits - width) := by
  obtain ⟨rest, rfl⟩ := Nat.exists_eq_add_of_le h
  rw [Nat.add_sub_cancel_left, Nat.add_comm width, Nat.pow_add, Nat.mod_mul, Nat.add_comm,
    Nat.mul_comm]

/-- A group is put behind the bits that are left. -/
theorem mod_put_behind (val : Nat) {v width bits : Nat} (hv : v < 2 ^ width)
    (hbits : bits + width ≤ 32) :
    ((val <<< width) ||| v) % 2 ^ 32 % 2 ^ (bits + width) = val % 2 ^ bits * 2 ^ width + v := by
  rw [Nat.mod_mod_of_dvd _ (Nat.pow_dvd_pow 2 hbits), ← Nat.shiftLeft_add_eq_or_of_lt hv,
    Nat.shiftLeft_eq, Nat.add_comm bits, Nat.pow_add, Nat.mod_mul, Nat.mul_add_mod_self_right,
    Nat.mod_eq_of_lt hv, Nat.mul_comm val, Nat.mul_add_div (Nat.two_pow_pos width),
    Nat.div_eq_of_lt hv, Nat.add_zero, Nat.add_comm, Nat.mul_comm]

/-- A group that is taken off the bits that are left. -/
theorem and_mask_eq (val shift width : Nat) :
    (val >>> shift) &&& (2 ^ width - 1) = val / 2 ^ shift % 2 ^ width := by
  rw [Nat.and_two_pow_sub_one_eq_mod, Nat.shiftRight_eq_div_pow]

/-- Bytes and the bits behind them stand for the same number as the groups. -/
theorem convertBits_spec {values : List Nat} (hvalues : ∀ v ∈ values, v < 32) (val : Nat)
    {bits : Nat}
    (hbits : bits < 8) :
    (convertBits values val bits).2.2 < 8 ∧
      5 * values.length + bits =
        8 * (convertBits values val bits).1.length + (convertBits values val bits).2.2 ∧
      val % 2 ^ bits * 32 ^ values.length + BigEndian.value 32 values =
        byteValue (convertBits values val bits).1 * 2 ^ (convertBits values val bits).2.2 +
          (convertBits values val bits).2.1 % 2 ^ (convertBits values val bits).2.2 := by
  induction values generalizing val bits with
  | nil => simp [convertBits, byteValue, hbits]
  | cons v values ih =>
    have hv : v < 2 ^ 5 := hvalues v List.mem_cons_self
    have hrest := fun w hw => hvalues w (List.mem_cons_of_mem _ hw)
    have hnext := mod_put_behind val hv (show bits + 5 ≤ 32 by omega)
    have hvalue : val % 2 ^ bits * 32 ^ (v :: values).length + BigEndian.value 32 (v :: values) =
        ((val <<< 5) ||| v) % 2 ^ 32 % 2 ^ (bits + 5) * 32 ^ values.length +
          BigEndian.value 32 values := by
      rw [hnext, BigEndian.value_cons, List.length_cons]
      ring
    rw [hvalue]
    simp only [convertBits]
    generalize ((val <<< 5) ||| v) % 2 ^ 32 = next
    split
    · next hfull =>
      obtain ⟨hlt, hlength, hsum⟩ := ih hrest next (show bits + 5 - 8 < 8 by omega)
      refine ⟨hlt, by simp only [List.length_cons]; omega, ?_⟩
      have hbyte : (UInt8.ofNat ((next >>> (bits + 5 - 8)) &&& 0xff)).toNat =
          next / 2 ^ (bits + 5 - 8) % 2 ^ 8 := by
        rw [show (0xff : Nat) = 2 ^ 8 - 1 from rfl, and_mask_eq]
        exact UInt8.toNat_ofNat_of_lt' (Nat.mod_lt _ (by decide))
      have hpow : 2 ^ (bits + 5 - 8) * 32 ^ values.length =
          256 ^ (convertBits values next (bits + 5 - 8)).1.length *
            2 ^ (convertBits values next (bits + 5 - 8)).2.2 := by
        rw [show (32 : Nat) = 2 ^ 5 from rfl, show (256 : Nat) = 2 ^ 8 from rfl, ← Nat.pow_mul,
          ← Nat.pow_mul, ← Nat.pow_add, ← Nat.pow_add]
        congr 1
        omega
      rw [byteValue_cons, hbyte, mod_take_off next hfull, Nat.add_mul, Nat.add_assoc, hsum,
        Nat.mul_assoc, hpow]
      ring
    · next hmore =>
      have hmore' : bits + 5 < 8 := not_le.mp hmore
      obtain ⟨hlt, hlength, hsum⟩ := ih hrest next hmore'
      exact ⟨hlt, by rw [List.length_cons]; omega, hsum⟩

/-- The groups stand for the number of the bytes, with zeros behind it. -/
theorem convertBitsPad_spec (bytes : List UInt8) (val : Nat) {bits : Nat} (hbits : bits < 5) :
    (∀ v ∈ convertBitsPad bytes val bits, v < 32) ∧
      ∃ pad < 5, 5 * (convertBitsPad bytes val bits).length = 8 * bytes.length + bits + pad ∧
        BigEndian.value 32 (convertBitsPad bytes val bits) =
          (val % 2 ^ bits * 256 ^ bytes.length + byteValue bytes) * 2 ^ pad := by
  have hgroup (n shift : Nat) : (n >>> shift) &&& 0x1f = n / 2 ^ shift % 2 ^ 5 :=
    and_mask_eq n shift 5
  have hlt32 (n : Nat) : n % 2 ^ 5 < 32 := Nat.mod_lt n (by decide)
  induction bytes generalizing val bits with
  | nil =>
    by_cases hzero : bits = 0
    · subst hzero
      refine ⟨by simp [convertBitsPad], 0, by omega, by simp [convertBitsPad], ?_⟩
      simp [convertBitsPad, byteValue, Nat.mod_one]
    · have hlast : ((val <<< (5 - bits)) % 2 ^ 32) &&& 0x1f = val % 2 ^ bits * 2 ^ (5 - bits) := by
        have hpow : 2 ^ bits * 2 ^ (5 - bits) = 2 ^ 5 := by
          rw [← Nat.pow_add]
          congr 1
          omega
        rw [show (0x1f : Nat) = 2 ^ 5 - 1 from rfl, Nat.and_two_pow_sub_one_eq_mod,
          Nat.mod_mod_of_dvd _ (Nat.pow_dvd_pow 2 (by omega)), Nat.shiftLeft_eq, ← hpow,
          Nat.mul_mod_mul_right]
      refine ⟨?_, 5 - bits, by omega, ?_, ?_⟩
      · simp only [convertBitsPad, if_neg hzero, List.mem_singleton, forall_eq]
        exact Nat.lt_of_le_of_lt Nat.and_le_right (by decide)
      · simp only [convertBitsPad, if_neg hzero, List.length_singleton, List.length_nil]
        omega
      · simp only [convertBitsPad, if_neg hzero, hlast]
        simp [byteValue]
  | cons byte bytes ih =>
    have hnext := mod_put_behind val byte.toNat_lt (show bits + 8 ≤ 32 by omega)
    have hvalue : val % 2 ^ bits * 256 ^ (byte :: bytes).length + byteValue (byte :: bytes) =
        ((val <<< 8) ||| byte.toNat) % 2 ^ 32 % 2 ^ (bits + 8) * 256 ^ bytes.length +
          byteValue bytes := by
      rw [hnext, byteValue_cons, List.length_cons]
      ring
    rw [hvalue]
    simp only [convertBitsPad]
    generalize ((val <<< 8) ||| byte.toNat) % 2 ^ 32 = next
    -- A place of a group among the bits that are left.
    have hplace {rest length pad : Nat} (h : 5 * length = 8 * bytes.length + rest + pad) :
        32 ^ length = 2 ^ rest * 256 ^ bytes.length * 2 ^ pad := by
      rw [show (32 : Nat) = 2 ^ 5 from rfl, show (256 : Nat) = 2 ^ 8 from rfl, ← Nat.pow_mul,
        ← Nat.pow_mul, ← Nat.pow_add, ← Nat.pow_add]
      congr 1
      omega
    split
    · next htwo =>
      obtain ⟨hall, pad, hpad, hlength, hsum⟩ := ih next (show bits + 8 - 10 < 5 by omega)
      refine ⟨?_, pad, hpad, by simp only [List.length_cons]; omega, ?_⟩
      · simp only [List.mem_cons, forall_eq_or_imp, hgroup]
        exact ⟨hlt32 _, hlt32 _, hall⟩
      · have hfirst := mod_take_off next (show 5 ≤ bits + 8 by omega)
        have hsecond := mod_take_off next (show 5 ≤ bits + 8 - 5 by omega)
        rw [show bits + 8 - 5 - 5 = bits + 8 - 10 by omega] at hsecond
        rw [BigEndian.value_cons, BigEndian.value_cons, List.length_cons, hgroup, hgroup, hsum,
          hfirst, hsecond, hplace hlength,
          hplace (show 5 * ((convertBitsPad bytes next (bits + 8 - 10)).length + 1) =
            8 * bytes.length + (bits + 8 - 5) + pad by omega)]
        ring
    · next hone =>
      obtain ⟨hall, pad, hpad, hlength, hsum⟩ := ih next (show bits + 8 - 5 < 5 by omega)
      refine ⟨?_, pad, hpad, by simp only [List.length_cons]; omega, ?_⟩
      · simp only [List.mem_cons, forall_eq_or_imp, hgroup]
        exact ⟨hlt32 _, hall⟩
      · have hfirst := mod_take_off next (show 5 ≤ bits + 8 by omega)
        rw [BigEndian.value_cons, hgroup, hsum, hfirst, hplace hlength]
        ring

/-- The bytes come back from their groups, with zeros left over. -/
theorem convertBits_convertBitsPad (bytes : List UInt8) :
    ∃ val bits, convertBits (convertBitsPad bytes 0 0) 0 0 = (bytes, val, bits) ∧ bits < 5 ∧
      val % 2 ^ bits = 0 := by
  obtain ⟨hgroups, pad, hpad, hlength, hvalue⟩ :=
    convertBitsPad_spec bytes 0 (show 0 < 5 by decide)
  obtain ⟨hbits, hlength', hvalue'⟩ := convertBits_spec hgroups 0 (show 0 < 8 by decide)
  generalize hout : convertBits (convertBitsPad bytes 0 0) 0 0 = out at *
  obtain ⟨others, val, bits⟩ := out
  simp only at hbits hlength' hvalue'
  have hsame : others.length = bytes.length ∧ bits = pad := by omega
  rw [hvalue, hsame.2] at hvalue'
  simp only [Nat.zero_mod, Nat.zero_mul, Nat.zero_add] at hvalue'
  have hlt := Nat.mod_lt val (Nat.two_pow_pos pad)
  have hquot : byteValue bytes = byteValue others ∧ val % 2 ^ pad = 0 := by
    have hpos := Nat.two_pow_pos pad
    constructor
    · have hdiv := congrArg (· / 2 ^ pad) hvalue'
      simp only [Nat.mul_div_cancel _ hpos] at hdiv
      rw [hdiv, Nat.mul_comm, Nat.mul_add_div hpos, Nat.div_eq_of_lt hlt, Nat.add_zero]
    · have hmod := congrArg (· % 2 ^ pad) hvalue'
      simp only [Nat.mul_mod_left, Nat.mul_add_mod_self_right, Nat.mod_mod] at hmod
      exact hmod.symm
  refine ⟨val, pad, ?_, hpad, hquot.2⟩
  rw [byteValue_inj hsame.1 hquot.1.symm, hsame.2]

/-- The groups come back from their bytes, where less than a group is left over and it is
    zero. -/
theorem convertBitsPad_convertBits {values : List Nat} (hvalues : ∀ v ∈ values, v < 32)
    {bytes : List UInt8} {val bits : Nat} (h : convertBits values 0 0 = (bytes, val, bits))
    (hbits : bits < 5) (hzero : val % 2 ^ bits = 0) : convertBitsPad bytes 0 0 = values := by
  obtain ⟨-, hlength', hvalue'⟩ := convertBits_spec hvalues 0 (show 0 < 8 by decide)
  obtain ⟨hgroups, pad, hpad, hlength, hvalue⟩ :=
    convertBitsPad_spec bytes 0 (show 0 < 5 by decide)
  rw [h] at hlength' hvalue'
  simp only [Nat.zero_mod, Nat.zero_mul, Nat.zero_add, hzero, Nat.add_zero] at hlength' hvalue'
  simp only [Nat.zero_mod, Nat.zero_mul, Nat.zero_add, Nat.add_zero] at hlength hvalue
  have hpads : pad = bits := by omega
  refine BigEndian.value_inj (by decide) (by omega) hgroups hvalues ?_
  rw [hvalue, hvalue', hpads]

/-! ## Programs and addresses -/

/-- What `segwit_addr_decode` checks about the data of an address. -/
structure SegwitData (enc : Bech32Encoding) (witver : Nat) (values : List Nat)
    (witprog : List UInt8) : Prop where
  short : values.length ≤ 64
  version : witver ≤ 16
  encoding : enc = if witver > 0 then .bech32m else .bech32
  padding : ∃ val bits, convertBits values 0 0 = (witprog, val, bits) ∧ bits < 5 ∧
    val % 2 ^ bits = 0
  program : 2 ≤ witprog.length ∧ witprog.length ≤ 40
  versionZero : witver = 0 → witprog.length = 20 ∨ witprog.length = 32

/-- The check of the bits that are left over. -/
theorem padding_iff {val bits : Nat} (hbits : bits < 8) :
    ((val <<< (8 - bits)) % 2 ^ 32) &&& 0xff = 0 ↔ val % 2 ^ bits = 0 := by
  have hpow : 2 ^ bits * 2 ^ (8 - bits) = 2 ^ 8 := by
    rw [← Nat.pow_add]
    congr 1
    omega
  rw [show (0xff : Nat) = 2 ^ 8 - 1 from rfl, Nat.and_two_pow_sub_one_eq_mod,
    Nat.mod_mod_of_dvd _ (Nat.pow_dvd_pow 2 (by omega)), Nat.shiftLeft_eq, ← hpow,
    Nat.mul_mod_mul_right]
  have hpos := Nat.two_pow_pos (8 - bits)
  constructor
  · intro h
    exact (Nat.mul_eq_zero.mp h).resolve_right (Nat.ne_of_gt hpos)
  · intro h
    rw [h, Nat.zero_mul]

theorem lt_of_bech32Decode {addr hrp : List UInt8} {enc : Bech32Encoding} {data : List Nat}
    (h : bech32Decode addr = some (enc, hrp, data)) : ∀ v ∈ data, v < 32 := by
  obtain ⟨front, body, values, -, -, -, hvalues, rfl, -⟩ := (bech32Decode_eq_some h).parts
  exact fun v hv => forall_lt_of_mapM_charsetRev hvalues v (List.mem_of_mem_take hv)

theorem segwitAddrDecode_eq_some_iff {hrp addr witprog : List UInt8} {witver : Nat} :
    segwitAddrDecode hrp addr = some (witver, witprog) ↔
      ∃ enc values, bech32Decode addr = some (enc, hrp, witver :: values) ∧
        SegwitData enc witver values witprog := by
  cases hdecode : bech32Decode addr with
  | none => simp [segwitAddrDecode, hdecode]
  | some decoded =>
    obtain ⟨enc, hrpActual, data⟩ := decoded
    have hlt := lt_of_bech32Decode hdecode
    cases data with
    | nil => simp [segwitAddrDecode, hdecode]
    | cons ver values =>
      obtain ⟨hbits, -, -⟩ :=
        convertBits_spec (fun v hv => hlt v (List.mem_cons_of_mem _ hv)) 0 (show 0 < 8 by decide)
      generalize hout : convertBits values 0 0 = out at hbits
      obtain ⟨witdata, val, bits⟩ := out
      simp only at hbits
      simp only [segwitAddrDecode, hdecode, hout, Option.some.injEq, Prod.mk.injEq,
        List.cons.injEq, List.length_cons, Bool.or_eq_true, Bool.and_eq_true, decide_eq_true_eq,
        ne_eq,
        padding_iff hbits]
      constructor
      · intro h
        split_ifs at h with hfirst hone hm hpad hlength hzero
        obtain ⟨rfl, rfl⟩ := Prod.mk.inj (Option.some.inj h)
        push Not at hfirst hone hm hpad hlength hzero
        refine ⟨enc, values, ⟨rfl, hfirst.1.2.symm, rfl, rfl⟩, ?_⟩
        refine ⟨by omega, hfirst.2, ?_, ⟨val, bits, hout, by omega, hpad.1⟩, by omega, ?_⟩
        · split
          · next hpos => exact hm hpos
          · next hpos => exact hone (by omega)
        · intro hver
          by_contra hnot
          push Not at hnot
          exact hnot.2 (hzero ⟨hver, hnot.1⟩)
      · rintro ⟨enc', values', ⟨rfl, rfl, rfl, rfl⟩, hdata⟩
        obtain ⟨val', bits', hsame, hfew, hpad⟩ := hdata.padding
        rw [hout] at hsame
        cases hsame
        have hshort := hdata.short
        have hversion := hdata.version
        have hprogram := hdata.program
        have hzero := hdata.versionZero
        have henc := hdata.encoding
        rw [if_neg (by simp; omega), if_neg, if_neg, if_neg (by simp [hpad]; omega),
          if_neg (by omega), if_neg (by omega)]
        · rintro ⟨hpos, hne⟩
          rw [if_pos hpos] at henc
          exact hne henc
        · rintro ⟨rfl, hne⟩
          exact hne henc

/-- A witness program comes back from its address. -/
theorem segwitAddrDecode_of_segwitAddrEncode {hrp text witprog : List UInt8} {witver : Nat}
    (hne : hrp ≠ []) (h : segwitAddrEncode hrp witver witprog = some text) :
    segwitAddrDecode hrp text = some (witver, witprog) := by
  simp only [segwitAddrEncode, Bool.or_eq_true, Bool.and_eq_true, decide_eq_true_eq, ne_eq] at h
  split_ifs at h with hversion hzero hlength hpos
  all_goals
    obtain ⟨-, pad, hpad, hgroups, -⟩ := convertBitsPad_spec witprog 0 (show 0 < 5 by decide)
    refine segwitAddrDecode_eq_some_iff.mpr
      ⟨_, convertBitsPad witprog 0 0, bech32Decode_of_bech32Encode hne h, ?_⟩
    refine ⟨by omega, by omega, by simp [hpos], convertBits_convertBitsPad witprog,
      by omega, ?_⟩
    intro hver
    omega

/-- An address in lower case comes back from its witness program, and one in capitals comes back in
    lower case. -/
theorem segwitAddrEncode_of_segwitAddrDecode {hrp addr witprog : List UInt8} {witver : Nat}
    (h : segwitAddrDecode hrp addr = some (witver, witprog)) :
    segwitAddrEncode hrp witver witprog = some (addr.map toLower) := by
  obtain ⟨enc, values, hdecode, hdata⟩ := segwitAddrDecode_eq_some_iff.mp h
  obtain ⟨front, body, -, rfl, hbody, -⟩ := (bech32Decode_eq_some hdecode).parts
  obtain ⟨val, bits, hconvert, hbits, hzero⟩ := hdata.padding
  have hvalues : ∀ v ∈ values, v < 32 := fun v hv =>
    lt_of_bech32Decode hdecode v (List.mem_cons_of_mem _ hv)
  have hversion := hdata.version
  have hprogram := hdata.program
  have hversionZero := hdata.versionZero
  rw [segwitAddrEncode, if_neg (by omega), if_neg (by simp; omega), if_neg (by simp; omega),
    convertBitsPad_convertBits hvalues hconvert hbits hzero, ← hdata.encoding]
  exact bech32Encode_of_bech32Decode hbody hdecode

/-- The texts that are written are those that are read and have no capitals. -/
theorem segwitAddrEncode_eq_some_iff {hrp text witprog : List UInt8} {witver : Nat}
    (hne : hrp ≠ []) :
    segwitAddrEncode hrp witver witprog = some text ↔
      segwitAddrDecode hrp text = some (witver, witprog) ∧
        ∀ ch ∈ text, isUpper ch = false := by
  constructor
  · intro h
    have hdecode := segwitAddrDecode_of_segwitAddrEncode hne h
    have hlower := segwitAddrEncode_of_segwitAddrDecode hdecode
    rw [h, Option.some.injEq] at hlower
    refine ⟨hdecode, fun ch hch => ?_⟩
    rw [hlower] at hch
    obtain ⟨ch', -, rfl⟩ := List.mem_map.mp hch
    exact isUpper_toLower ch'
  · rintro ⟨hdecode, hupper⟩
    rw [segwitAddrEncode_of_segwitAddrDecode hdecode, map_toLower_eq hupper]

/-- The address of twenty zeros. -/
theorem segwitAddrEncode_eq_some_iff_zeros :
    segwitAddrDecode (ascii "bc") (ascii "bc1qqqqqqqqqqqqqqqqqqqqqqqqqqqqqqqqq9e75rs") =
      some (0, List.replicate 20 0) :=
  ((segwitAddrEncode_eq_some_iff (by decide)).mp (by decide +kernel)).1

end ChirpGateway
