import ChirpGateway.Address.OutputScript
import ChirpGateway.Lib.BigEndian
import ChirpGateway.Lib.LinearChecksum
import Mathlib.Data.List.Induction
import Mathlib.Data.Nat.Bitwise

/-!
# The checksum of a segwit address

`bech32_encode` (`thirdparty_segwit_addr.c:56-90`). The checksum is linear, so the six
characters at the end can be solved for, in one way only.
-/

namespace ChirpGateway

open Bytes LinearChecksum

/-- `bech32_final_constant`. -/
def bech32FinalConstant : Bech32Encoding → UInt32
  | .bech32 => 1
  | .bech32m => 0x2bc830a3

/-- `charset[v]`. -/
def bech32Char (v : Nat) : UInt8 := bech32Charset.getD v 0

/-- The last six values: the groups of five bits of the checksum. -/
def bech32Tail (chk : UInt32) : List Nat :=
  [25, 20, 15, 10, 5, 0].map fun shift => ((chk >>> UInt32.ofNat shift) &&& 0x1f).toNat

/-- `bech32_encode`. The prefix has no capitals where it is summed, so that the sum is the one
    of the decoder. -/
def bech32Encode (hrp : List UInt8) (data : List Nat) (enc : Bech32Encoding) :
    Option (List UInt8) :=
  if hrp.any fun ch => ch < 33 || ch > 126 || isUpper ch then none
  else if hrp.length + 7 + data.length > 90 then none
  else if data.any fun v => v >>> 5 ≠ 0 then none
  else
    let chk := bech32PolymodStep^[6] (bech32Checksum hrp data) ^^^ bech32FinalConstant enc
    some (hrp ++ bech32Separator :: (data ++ bech32Tail chk).map bech32Char)

/-! ## The checksum is linear -/

/-- A bit that is shifted out. -/
def polymodBit (pre i : UInt32) : UInt32 := ((pre >>> 25) >>> i) &&& 1

/-- One of the five generators, where its bit is shifted out. -/
def polymodTerm (pre i generator : UInt32) : UInt32 :=
  if polymodBit pre i = 1 then generator else 0

theorem bech32PolymodStep_eq (pre : UInt32) : bech32PolymodStep pre =
    ((pre &&& 0x1ffffff) <<< 5) ^^^ polymodTerm pre 0 0x3b6a57b2 ^^^ polymodTerm pre 1 0x26508e6d
      ^^^ polymodTerm pre 2 0x1ea119fa ^^^ polymodTerm pre 3 0x3d4233dd
      ^^^ polymodTerm pre 4 0x2a1462b3 := rfl

theorem polymodBit_cases (pre i : UInt32) : polymodBit pre i = 0 ∨ polymodBit pre i = 1 := by
  have hone : (1 : UInt32).toNat = 1 := rfl
  rw [← UInt32.toNat_inj, ← UInt32.toNat_inj, polymodBit, UInt32.toNat_and, hone,
    Nat.and_one_is_mod]
  exact Nat.mod_two_eq_zero_or_one _

theorem xor_and_distrib (a b mask : UInt32) :
    (a ^^^ b) &&& mask = (a &&& mask) ^^^ (b &&& mask) := by
  rw [← UInt32.toNat_inj]
  simp only [UInt32.toNat_and, UInt32.toNat_xor, Nat.and_xor_distrib_right]

theorem polymodTerm_xor (a b i generator : UInt32) : polymodTerm (a ^^^ b) i generator =
    polymodTerm a i generator ^^^ polymodTerm b i generator := by
  have hbit : polymodBit (a ^^^ b) i = polymodBit a i ^^^ polymodBit b i := by
    simp only [polymodBit, UInt32.shiftRight_xor, xor_and_distrib]
  simp only [polymodTerm, hbit]
  rcases polymodBit_cases a i with ha | ha <;>
    rcases polymodBit_cases b i with hb | hb <;> simp [ha, hb]

theorem bech32PolymodStep_xor (a b : UInt32) :
    bech32PolymodStep (a ^^^ b) = bech32PolymodStep a ^^^ bech32PolymodStep b := by
  have hlow : ((a ^^^ b) &&& 0x1ffffff) <<< 5 =
      ((a &&& 0x1ffffff) <<< 5) ^^^ ((b &&& 0x1ffffff) <<< 5) := by
    rw [xor_and_distrib, UInt32.shiftLeft_xor]
  simp only [bech32PolymodStep_eq, polymodTerm_xor, hlow]
  ac_rfl

/-- The step as it acts on words that are added without carries. -/
def polymodHom : XorWord →+ XorWord where
  toFun := bech32PolymodStep
  map_zero' := rfl
  map_add' := bech32PolymodStep_xor

theorem foldl_polymod (start : UInt32) (values : List Nat) :
    values.foldl (fun chk v => bech32PolymodStep chk ^^^ UInt32.ofNat v) start =
      run polymodHom start (values.map XorWord.ofNat) := by
  induction values generalizing start with
  | nil => rfl
  | cons v values ih => exact ih _

/-! ## The last six values -/

/-- A group of five bits behind a number. -/
theorem xor_group (n : Nat) {v : Nat} (hv : v < 32) : n * 32 ^^^ v = n * 32 + v := by
  refine Nat.eq_of_testBit_eq fun i => ?_
  rw [Nat.testBit_xor, Nat.mul_comm, Nat.testBit_two_pow_mul (i := 5),
    Nat.testBit_two_pow_mul_add (i := 5) n hv]
  by_cases hi : i < 5
  · simp [hi, not_le.mpr hi]
  · have hpow : 2 ^ 5 ≤ 2 ^ i := Nat.pow_le_pow_right (by decide) (not_lt.mp hi)
    have hbit : v.testBit i = false := Nat.testBit_lt_two_pow (Nat.lt_of_lt_of_le hv hpow)
    simp [hi, hbit, not_lt.mp hi]

theorem toNat_ofNat_of_lt {n : Nat} (hn : n < 2 ^ 32) : (UInt32.ofNat n).toNat = n :=
  UInt32.toNat_ofNat_of_lt' hn

/-- Where nothing is shifted out, a step only makes room for a group. -/
theorem polymodStep_small {n v : Nat} (hn : n < 2 ^ 25) (hv : v < 32) :
    bech32PolymodStep (UInt32.ofNat n) ^^^ UInt32.ofNat v = UInt32.ofNat (n * 32 + v) := by
  have hword : (UInt32.ofNat n).toNat = n := toNat_ofNat_of_lt (by omega)
  have hout : UInt32.ofNat n >>> 25 = 0 := by
    rw [← UInt32.toNat_inj, UInt32.toNat_shiftRight, hword]
    exact Nat.shiftRight_eq_zero n 25 hn
  have hterm (i generator : UInt32) : polymodTerm (UInt32.ofNat n) i generator = 0 := by
    simp [polymodTerm, polymodBit, hout]
  have hkept : UInt32.ofNat n &&& 0x1ffffff = UInt32.ofNat n := by
    rw [← UInt32.toNat_inj, UInt32.toNat_and, hword]
    exact Nat.and_two_pow_sub_one_of_lt_two_pow hn
  rw [bech32PolymodStep_eq, hkept]
  simp only [hterm, UInt32.xor_zero]
  rw [← UInt32.toNat_inj, UInt32.toNat_xor, UInt32.toNat_shiftLeft, hword,
    toNat_ofNat_of_lt (by omega), toNat_ofNat_of_lt (by omega), ← xor_group n hv]
  congr 1
  rw [show (5 : UInt32).toNat % 32 = 5 from rfl, Nat.shiftLeft_eq]
  omega

/-- Up to six values behind nothing are summed to the number they stand for. -/
theorem run_small {values : List Nat} (hlength : values.length ≤ 6)
    (hvalues : ∀ v ∈ values, v < 32) :
    run polymodHom 0 (values.map XorWord.ofNat) = XorWord.ofNat (BigEndian.value 32 values) := by
  induction values using List.reverseRecOn with
  | nil => rfl
  | append_singleton front v ih =>
    rw [List.length_append, List.length_singleton] at hlength
    have hfront : ∀ v ∈ front, v < 32 := fun v hv => hvalues v (List.mem_append_left _ hv)
    have hlt : BigEndian.value 32 front < 2 ^ 25 := by
      calc BigEndian.value 32 front < 32 ^ front.length := BigEndian.value_lt (by omega) hfront
        _ ≤ 32 ^ 5 := Nat.pow_le_pow_right (by omega) (by omega)
    rw [List.map_append, run_append, ih (by omega) hfront, BigEndian.value_concat]
    exact polymodStep_small hlt (hvalues v (by simp))

/-- A checksum has thirty bits. -/
theorem polymodStep_lt (pre : UInt32) : (bech32PolymodStep pre).toNat < 2 ^ 30 := by
  have hterm (i : UInt32) {generator : UInt32} (h : generator.toNat < 2 ^ 30) :
      (polymodTerm pre i generator).toNat < 2 ^ 30 := by
    unfold polymodTerm
    split
    · exact h
    · decide
  have hlow : ((pre &&& 0x1ffffff) <<< 5).toNat < 2 ^ 30 := by
    rw [UInt32.toNat_shiftLeft, UInt32.toNat_and, show (5 : UInt32).toNat % 32 = 5 from rfl,
      show (0x1ffffff : UInt32).toNat = 2 ^ 25 - 1 from rfl, Nat.and_two_pow_sub_one_eq_mod,
      Nat.shiftLeft_eq]
    have hmod := Nat.mod_lt pre.toNat (Nat.two_pow_pos 25)
    omega
  simp only [bech32PolymodStep_eq, UInt32.toNat_xor]
  refine Nat.xor_lt_two_pow (Nat.xor_lt_two_pow (Nat.xor_lt_two_pow (Nat.xor_lt_two_pow
    (Nat.xor_lt_two_pow hlow ?_) ?_) ?_) ?_) ?_ <;> exact hterm _ (by decide)

theorem bech32Tail_lt {chk : UInt32} : ∀ v ∈ bech32Tail chk, v < 32 := by
  intro v hv
  obtain ⟨shift, -, rfl⟩ := List.mem_map.mp hv
  rw [UInt32.toNat_and]
  exact Nat.lt_of_le_of_lt Nat.and_le_right (by decide)

/-- The last six values stand for the checksum they were made of. -/
theorem value_bech32Tail {chk : UInt32} (hchk : chk.toNat < 2 ^ 30) :
    BigEndian.value 32 (bech32Tail chk) = chk.toNat := by
  have hgroup {shift : Nat} (hshift : shift < 32) :
      ((chk >>> UInt32.ofNat shift) &&& 0x1f).toNat = chk.toNat / 2 ^ shift % 32 := by
    rw [UInt32.toNat_and, UInt32.toNat_shiftRight, toNat_ofNat_of_lt (by omega),
      Nat.mod_eq_of_lt hshift, Nat.shiftRight_eq_div_pow]
    exact Nat.and_two_pow_sub_one_eq_mod _ 5
  simp only [bech32Tail, List.map_cons, List.map_nil, BigEndian.value_cons, BigEndian.value_nil,
    List.length_cons, List.length_nil]
  rw [hgroup (by omega), hgroup (by omega), hgroup (by omega), hgroup (by omega), hgroup (by omega),
    hgroup (by omega)]
  omega

/-- The prefix is summed before the values. -/
theorem bech32Checksum_eq (hrp : List UInt8) : ∃ start : XorWord, ∀ values,
    bech32Checksum hrp values = run polymodHom start (values.map XorWord.ofNat) :=
  ⟨_, foldl_polymod _⟩

/-- The checksum that is left to make up for. -/
def bech32Left (hrp : List UInt8) (data : List Nat) (enc : Bech32Encoding) : UInt32 :=
  bech32PolymodStep^[6] (bech32Checksum hrp data) ^^^ bech32FinalConstant enc

theorem bech32Left_lt (hrp : List UInt8) (data : List Nat) (enc : Bech32Encoding) :
    (bech32Left hrp data enc).toNat < 2 ^ 30 := by
  rw [bech32Left, UInt32.toNat_xor]
  refine Nat.xor_lt_two_pow (polymodStep_lt _) ?_
  cases enc <;> decide

/-- Six values complete a text in exactly one way. -/
theorem bech32Checksum_append_eq_iff {hrp : List UInt8} {data tail : List Nat}
    {enc : Bech32Encoding} (hlength : tail.length = 6) (htail : ∀ v ∈ tail, v < 32) :
    bech32Checksum hrp (data ++ tail) = bech32FinalConstant enc ↔
      tail = bech32Tail (bech32Left hrp data enc) := by
  obtain ⟨start, hstart⟩ := bech32Checksum_eq hrp
  have hlt : BigEndian.value 32 tail < 2 ^ 30 := by
    have hvalue := BigEndian.value_lt (by omega) htail
    rw [hlength] at hvalue
    exact hvalue
  have hleft := bech32Left_lt hrp data enc
  have hsolve : bech32Checksum hrp (data ++ tail) = bech32FinalConstant enc ↔
      UInt32.ofNat (BigEndian.value 32 tail) = bech32Left hrp data enc := by
    obtain ⟨target, htarget⟩ : ∃ target : XorWord, target = bech32FinalConstant enc :=
      ⟨_, rfl⟩
    have hiff := run_append_eq_iff polymodHom start target (data.map XorWord.ofNat)
      (tail.map XorWord.ofNat)
    rw [run_small (Nat.le_of_eq hlength) htail, XorWord.sub_eq, List.length_map, hlength,
      ← List.map_append, ← hstart, ← hstart, htarget] at hiff
    exact hiff
  rw [hsolve, ← UInt32.toNat_inj, toNat_ofNat_of_lt (by omega), ← value_bech32Tail hleft]
  constructor
  · exact BigEndian.value_inj (by omega) (by rw [hlength]; rfl) htail bech32Tail_lt
  · rintro rfl
    rfl

/-! ## What is encoded is decoded -/

theorem charsetRev_bech32Char : ∀ v < 32, charsetRev (bech32Char v) = some v ∧
    isUpper (bech32Char v) = false ∧ bech32Char v ≠ bech32Separator := by
  decide +kernel

theorem bech32Char_of_charsetRev {ch : UInt8} {v : Nat} (h : charsetRev ch = some v) :
    bech32Char v = toLower ch := by
  simp only [charsetRev] at h
  split at h
  · obtain ⟨hv, hget, -⟩ := List.idxOf?_eq_some_iff.mp h
    rw [bech32Char, List.getD_eq_getElem _ _ hv, hget]
  · cases h

theorem mapM_charsetRev_bech32Char {values : List Nat} (hvalues : ∀ v ∈ values, v < 32) :
    (values.map bech32Char).mapM charsetRev = some values := by
  induction values with
  | nil => rfl
  | cons v values ih =>
    rw [List.map_cons, List.mapM_cons, (charsetRev_bech32Char v (hvalues v (by simp))).1,
      ih fun w hw => hvalues w (List.mem_cons_of_mem _ hw)]
    rfl

theorem map_bech32Char_of_mapM {body : List UInt8} {values : List Nat}
    (h : body.mapM charsetRev = some values) : values.map bech32Char = body.map toLower := by
  induction body generalizing values with
  | nil =>
    cases h
    rfl
  | cons ch body ih =>
    rw [List.mapM_cons] at h
    simp only [Option.bind_eq_bind, Option.bind_eq_some_iff, Option.pure_def,
      Option.some.injEq] at h
    obtain ⟨v, hv, rest, hrest, rfl⟩ := h
    rw [List.map_cons, List.map_cons, bech32Char_of_charsetRev hv, ih hrest]

theorem bech32DataLen_split {front body : List UInt8} (hbody : bech32Separator ∉ body) :
    bech32DataLen (front ++ bech32Separator :: body) = body.length := by
  have hall : ∀ ch ∈ body.reverse, decide (ch ≠ bech32Separator) = true := by
    intro ch hch
    refine decide_eq_true fun heq => hbody ?_
    rw [← heq]
    exact List.mem_reverse.mp hch
  rw [bech32DataLen, List.reverse_append, List.reverse_cons, List.append_assoc,
    List.takeWhile_append_of_pos hall]
  simp

/-- What a text is that the decoder accepts, its last separator being known. -/
structure Accepted (front body : List UInt8) (enc : Bech32Encoding) (values : List Nat) :
    Prop where
  long : 7 ≤ front.length + body.length
  short : front.length + body.length ≤ 89
  hasFront : front ≠ []
  hasTail : 6 ≤ body.length
  printable : (front.any fun ch => ch < 33 || ch > 126) = false
  charset : body.mapM charsetRev = some values
  oneCase : ((front ++ body).any isLower && (front ++ body).any isUpper) = false
  checksum : bech32Checksum front values = bech32FinalConstant enc

theorem bech32Decode_eq_some_iff {front body hrp : List UInt8} {enc : Bech32Encoding}
    {data : List Nat} (hbody : bech32Separator ∉ body) :
    bech32Decode (front ++ bech32Separator :: body) = some (enc, hrp, data) ↔
      ∃ values, Accepted front body enc values ∧ hrp = front.map toLower ∧
        data = values.take (body.length - 6) := by
  have hlength : (front ++ bech32Separator :: body).length = front.length + 1 + body.length := by
    rw [List.length_append, List.length_cons]
    omega
  have htake : (front ++ bech32Separator :: body).take
      (front.length + 1 + body.length - (1 + body.length)) = front := by
    rw [show front.length + 1 + body.length - (1 + body.length) = front.length by omega]
    exact List.take_left
  have hdrop : (front ++ bech32Separator :: body).drop
      (front.length + 1 + body.length - body.length) = body := by
    rw [List.append_cons]
    apply List.drop_left'
    simp
  have hne : front ≠ [] ↔ 0 < front.length := List.length_pos_iff.symm
  simp only [bech32Decode, bech32DataLen_split hbody, hlength, htake, hdrop]
  constructor
  · intro h
    cases hvalues : body.mapM charsetRev with
    | none =>
      simp only [hvalues] at h
      split_ifs at h
    | some values =>
      simp only [hvalues] at h
      have hmade
          (hlong : ¬(front.length + 1 + body.length < 8 ∨ front.length + 1 + body.length > 90))
          (hparts : ¬(1 + body.length ≥ front.length + 1 + body.length ∨ body.length < 6))
          (hprintable : ¬(front.any fun ch => ch < 33 || ch > 126) = true)
          (hcase : ¬((front ++ body).any isLower && (front ++ body).any isUpper) = true)
          (hsum : bech32Checksum front values = bech32FinalConstant enc) :
          Accepted front body enc values :=
        ⟨by omega, by omega, hne.mpr (by omega), by omega, Bool.not_eq_true _ ▸ hprintable,
          hvalues, Bool.not_eq_true _ ▸ hcase, hsum⟩
      simp only [Bool.or_eq_true, decide_eq_true_eq] at h
      split_ifs at h with hlong hparts hprintable hcase hone hm
      · cases h
        exact ⟨values, hmade hlong hparts (by simpa using hprintable) hcase hone, rfl, rfl⟩
      · cases h
        exact ⟨values, hmade hlong hparts (by simpa using hprintable) hcase hm, rfl, rfl⟩
  · rintro ⟨values, hacc, rfl, rfl⟩
    have hlong := hacc.long
    have hshort := hacc.short
    have htail := hacc.hasTail
    have hfront := hne.mp hacc.hasFront
    rw [if_neg (by simp only [Bool.or_eq_true, decide_eq_true_eq]; omega),
      if_neg (by simp only [Bool.or_eq_true, decide_eq_true_eq]; omega),
      if_neg (by rw [hacc.printable]; exact Bool.false_ne_true)]
    simp only [hacc.charset, hacc.oneCase, hacc.checksum]
    cases enc <;> simp [bech32FinalConstant]

/-- What `bech32_encode` has checked, and what it writes. -/
theorem bech32Encode_eq_some_iff {hrp text : List UInt8} {data : List Nat} {enc : Bech32Encoding} :
    bech32Encode hrp data enc = some text ↔
      (hrp.any fun ch => ch < 33 || ch > 126 || isUpper ch) = false ∧
      hrp.length + 7 + data.length ≤ 90 ∧ (∀ v ∈ data, v < 32) ∧
      text = hrp ++ bech32Separator ::
        (data ++ bech32Tail (bech32Left hrp data enc)).map bech32Char := by
  have hgroups : (data.any fun v => v >>> 5 ≠ 0) = true ↔ ¬∀ v ∈ data, v < 32 := by
    simp only [List.any_eq_true, decide_eq_true_eq, ne_eq, Nat.shiftRight_eq_div_pow]
    push Not
    constructor
    · rintro ⟨v, hv, hne⟩
      exact ⟨v, hv, by omega⟩
    · rintro ⟨v, hv, hge⟩
      exact ⟨v, hv, by omega⟩
  simp only [bech32Encode, hgroups]
  constructor
  · intro h
    split_ifs at h with hbegins hlong hdata
    cases h
    exact ⟨Bool.not_eq_true _ ▸ hbegins, not_lt.mp hlong, hdata, rfl⟩
  · rintro ⟨hbegins, hlong, hdata, rfl⟩
    rw [if_neg (by rw [hbegins]; exact Bool.false_ne_true), if_neg (not_lt.mpr hlong),
      if_neg (not_not.mpr hdata)]
    rfl

theorem toNat_toLower {ch : UInt8} (h : isUpper ch = true) :
    65 ≤ ch.toNat ∧ ch.toNat ≤ 90 ∧ (toLower ch).toNat = ch.toNat + 32 := by
  have hrange := h
  simp only [isUpper, Bool.and_eq_true, decide_eq_true_eq, UInt8.le_iff_toNat_le] at hrange
  obtain ⟨hlow, hhigh⟩ := hrange
  have hle : ch.toNat ≤ 90 := hhigh
  refine ⟨hlow, hle, ?_⟩
  rw [toLower, if_pos h, UInt8.toNat_add]
  exact Nat.mod_eq_of_lt (show ch.toNat + 32 < 256 by omega)

theorem isUpper_toLower (ch : UInt8) : isUpper (toLower ch) = false := by
  cases h : isUpper ch with
  | false => rw [toLower_of_not_isUpper h, h]
  | true =>
    obtain ⟨hlow, -, hsum⟩ := toNat_toLower h
    have hhigh : ¬ toLower ch ≤ 90 := by
      rw [UInt8.le_iff_toNat_le, hsum]
      show ¬ ch.toNat + 32 ≤ 90
      omega
    simp [isUpper, hhigh]

/-- What was encoded is decoded to the same prefix and values. -/
theorem bech32Decode_of_bech32Encode {hrp text : List UInt8} {data : List Nat}
    {enc : Bech32Encoding} (hne : hrp ≠ []) (h : bech32Encode hrp data enc = some text) :
    bech32Decode text = some (enc, hrp, data) := by
  obtain ⟨hbegins, hlength, hdata, rfl⟩ := bech32Encode_eq_some_iff.mp h
  have hall : ∀ v ∈ data ++ bech32Tail (bech32Left hrp data enc), v < 32 := by
    intro v hv
    rcases List.mem_append.mp hv with hmem | hmem
    · exact hdata v hmem
    · exact bech32Tail_lt v hmem
  have hbody :
      bech32Separator ∉ (data ++ bech32Tail (bech32Left hrp data enc)).map bech32Char := by
    intro hmem
    obtain ⟨v, hv, heq⟩ := List.mem_map.mp hmem
    exact (charsetRev_bech32Char v (hall v hv)).2.2 heq
  have hupper : ∀ ch ∈ hrp, isUpper ch = false := by
    intro ch hch
    have hch := List.any_eq_false.mp hbegins ch hch
    simp only [Bool.or_eq_true, not_or, Bool.not_eq_true] at hch
    exact hch.2
  have htail : (bech32Tail (bech32Left hrp data enc)).length = 6 := rfl
  refine (bech32Decode_eq_some_iff hbody).mpr
    ⟨data ++ bech32Tail (bech32Left hrp data enc), ?_, ?_, ?_⟩
  · have hpos := List.length_pos_iff.mpr hne
    refine ⟨?_, ?_, hne, ?_, ?_, mapM_charsetRev_bech32Char hall, ?_, ?_⟩
    · simp [htail]
      omega
    · simp [htail]
      omega
    · simp [htail]
    · refine List.any_eq_false.mpr fun ch hch => ?_
      have hch := List.any_eq_false.mp hbegins ch hch
      simp only [Bool.or_eq_true, not_or] at hch ⊢
      exact hch.1
    · refine Bool.and_eq_false_imp.mpr fun _ => List.any_eq_false.mpr fun ch hch => ?_
      rw [Bool.not_eq_true]
      rcases List.mem_append.mp hch with hmem | hmem
      · exact hupper ch hmem
      · obtain ⟨v, hv, rfl⟩ := List.mem_map.mp hmem
        exact (charsetRev_bech32Char v (hall v hv)).2.1
    · exact (bech32Checksum_append_eq_iff htail bech32Tail_lt).mpr rfl
  · exact (map_toLower_eq hupper).symm
  · simp [htail]

/-- The sum does not depend on the case of the prefix. -/
theorem bech32Checksum_map_toLower (hrp : List UInt8) (values : List Nat) :
    bech32Checksum (hrp.map toLower) values = bech32Checksum hrp values := by
  have hlow (ch : UInt8) : toLower ch &&& 0x1f = ch &&& 0x1f := by
    cases h : isUpper ch with
    | false => rw [toLower_of_not_isUpper h]
    | true =>
      obtain ⟨-, -, hsum⟩ := toNat_toLower h
      rw [← UInt8.toNat_inj, UInt8.toNat_and, UInt8.toNat_and, hsum,
        show (0x1f : UInt8).toNat = 2 ^ 5 - 1 from rfl, Nat.and_two_pow_sub_one_eq_mod,
        Nat.and_two_pow_sub_one_eq_mod]
      omega
  have hagain (ch : UInt8) : toLower (toLower ch) = toLower ch :=
    toLower_of_not_isUpper (isUpper_toLower ch)
  simp only [bech32Checksum, List.foldl_map, hlow, hagain]

/-- What was decoded is encoded to the same text, in lower case. -/
theorem bech32Encode_of_bech32Decode {front body hrp : List UInt8} {data : List Nat}
    {enc : Bech32Encoding} (hbody : bech32Separator ∉ body)
    (h : bech32Decode (front ++ bech32Separator :: body) = some (enc, hrp, data)) :
    bech32Encode hrp data enc = some ((front ++ bech32Separator :: body).map toLower) := by
  obtain ⟨values, hacc, rfl, rfl⟩ := (bech32Decode_eq_some_iff hbody).mp h
  have hvalues := forall_lt_of_mapM_charsetRev hacc.charset
  have hlength := length_of_mapM_eq_some hacc.charset
  have hlong := hacc.hasTail
  have hshort := hacc.short
  -- The last six values are the only ones that fit.
  have htail : values.drop (body.length - 6) =
      bech32Tail (bech32Left (front.map toLower) (values.take (body.length - 6)) enc) := by
    refine (bech32Checksum_append_eq_iff ?_ ?_).mp ?_
    · rw [List.length_drop]
      omega
    · exact fun v hv => hvalues v (List.mem_of_mem_drop hv)
    · rw [List.take_append_drop, bech32Checksum_map_toLower]
      exact hacc.checksum
  refine bech32Encode_eq_some_iff.mpr ⟨?_, ?_, ?_, ?_⟩
  · refine List.any_eq_false.mpr fun ch hch => ?_
    obtain ⟨ch, hmem, rfl⟩ := List.mem_map.mp hch
    have hprint := List.any_eq_false.mp hacc.printable ch hmem
    simp only [Bool.or_eq_true, not_or, decide_eq_true_eq, isUpper_toLower] at hprint ⊢
    refine ⟨?_, Bool.false_ne_true⟩
    cases hcase : isUpper ch with
    | false =>
      rw [toLower_of_not_isUpper hcase]
      exact hprint
    | true =>
      obtain ⟨hlow, hhigh, hsum⟩ := toNat_toLower hcase
      simp only [UInt8.lt_iff_toNat_lt, gt_iff_lt, hsum]
      refine ⟨?_, ?_⟩
      · show ¬ ch.toNat + 32 < 33
        omega
      · show ¬ 126 < ch.toNat + 32
        omega
  · rw [List.length_map, List.length_take]
    omega
  · exact fun v hv => hvalues v (List.mem_of_mem_take hv)
  · rw [← htail, List.take_append_drop, List.map_append, List.map_cons,
      map_bech32Char_of_mapM hacc.charset]
    rfl

/-! ## One wrong character -/

/-- A difference between the checksums of two valid texts. -/
def validDifference (chk : UInt32) : Bool := chk = 0 || chk = 0x2bc830a2

theorem validDifference_finalConstants (enc enc' : Bech32Encoding) :
    validDifference (bech32FinalConstant enc ^^^ bech32FinalConstant enc') = true := by
  cases enc <;> cases enc' <;> decide

/-- What one wrong value leaves in the checksum makes no valid text of it, in either encoding. -/
theorem polymod_avoids : ∀ e < 32, 0 < e →
    orbitAvoids bech32PolymodStep validDifference 90 (UInt32.ofNat e) = true := by
  decide +kernel

/-- A text with one value replaced is no valid text of any encoding. -/
theorem bech32Checksum_replaced {hrp : List UInt8} {front back : List Nat} {v w : Nat}
    {enc enc' : Bech32Encoding} (hv : v < 32) (hw : w < 32) (hne : v ≠ w)
    (hback : back.length < 90)
    (hvalid : bech32Checksum hrp (front ++ v :: back) = bech32FinalConstant enc) :
    bech32Checksum hrp (front ++ w :: back) ≠ bech32FinalConstant enc' := by
  intro hother
  obtain ⟨start, hstart⟩ := bech32Checksum_eq hrp
  have hdiff := run_substituted polymodHom start (XorWord.ofNat v) (XorWord.ofNat w)
    (front.map XorWord.ofNat) (back.map XorWord.ofNat)
  rw [← List.map_cons, ← List.map_cons, ← List.map_append, ← List.map_append, ← hstart,
    ← hstart,
    hvalid, hother, List.length_map] at hdiff
  have hsum : bech32FinalConstant enc ^^^ bech32FinalConstant enc' =
      bech32PolymodStep^[back.length] (UInt32.ofNat v ^^^ UInt32.ofNat w) := hdiff
  have hgroup : UInt32.ofNat v ^^^ UInt32.ofNat w = UInt32.ofNat (v ^^^ w) := by
    have hlt : v ^^^ w < 2 ^ 5 := Nat.xor_lt_two_pow hv hw
    rw [← UInt32.toNat_inj, UInt32.toNat_xor, toNat_ofNat_of_lt (by omega),
      toNat_ofNat_of_lt (by omega), toNat_ofNat_of_lt (by omega)]
  have hpos : 0 < v ^^^ w := Nat.pos_of_ne_zero fun h => hne (Nat.xor_eq_zero_iff.mp h)
  have hgood := not_bad_of_orbitAvoids
    (polymod_avoids (v ^^^ w) (Nat.xor_lt_two_pow (n := 5) hv hw) hpos) hback
  rw [← hgroup, ← hsum, validDifference_finalConstants] at hgood
  cases hgood

end ChirpGateway
