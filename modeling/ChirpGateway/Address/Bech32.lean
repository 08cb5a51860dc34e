import ChirpGateway.Lib.Bytes
import Mathlib.Data.List.TakeWhile
import Mathlib.Data.Nat.Bitwise

/-!
# Segwit addresses

`bech32_decode`, `convert_bits` and `segwit_addr_decode` of
`thirdparty_segwit_addr.c:70-190`. Text is a list of bytes; a byte of 0x80 and
above is a negative `char` in the source and refused there as it is here.
-/

namespace ChirpGateway

open Bytes

def isLower (ch : UInt8) : Bool := 97 ≤ ch && ch ≤ 122

def isUpper (ch : UInt8) : Bool := 65 ≤ ch && ch ≤ 90

/-- ASCII lower case. -/
def toLower (ch : UInt8) : UInt8 := if isUpper ch then ch + 32 else ch

/-- The separator `'1'`. -/
def bech32Separator : UInt8 := 49

/-- `charset`. -/
def bech32Charset : List UInt8 := ascii "qpzry9x8gf2tvdw0s3jn54khce6mua7l"

/-- `charset_rev`: the value of a character of either case. -/
def charsetRev (ch : UInt8) : Option Nat :=
  if ch < 0x80 then bech32Charset.idxOf? (toLower ch) else none

inductive Bech32Encoding where
  | bech32
  | bech32m
  deriving DecidableEq, Repr

/-- `bech32_polymod_step`. -/
def bech32PolymodStep (pre : UInt32) : UInt32 :=
  let b := pre >>> 25
  let term (i : UInt32) (generator : UInt32) : UInt32 :=
    if (b >>> i) &&& 1 = 1 then generator else 0
  ((pre &&& 0x1ffffff) <<< 5) ^^^ term 0 0x3b6a57b2 ^^^ term 1 0x26508e6d ^^^
    term 2 0x1ea119fa ^^^ term 3 0x3d4233dd ^^^ term 4 0x2a1462b3

/-- The checksum over the prefix and all data values. -/
def bech32Checksum (hrp : List UInt8) (values : List Nat) : UInt32 :=
  let high := hrp.foldl
    (fun chk ch => bech32PolymodStep chk ^^^ (toLower ch >>> 5).toUInt32) 1
  let low := hrp.foldl
    (fun chk ch => bech32PolymodStep chk ^^^ (ch &&& 0x1f).toUInt32) (bech32PolymodStep high)
  values.foldl (fun chk v => bech32PolymodStep chk ^^^ UInt32.ofNat v) low

/-- `*data_len` before the checksum is taken off: the characters behind the last
    separator. -/
def bech32DataLen (input : List UInt8) : Nat :=
  (input.reverse.takeWhile (· ≠ bech32Separator)).length

/-- `bech32_decode`: the encoding, the prefix in lower case and the data
    values. -/
def bech32Decode (input : List UInt8) : Option (Bech32Encoding × List UInt8 × List Nat) :=
  let dataLen := bech32DataLen input
  if input.length < 8 || input.length > 90 then
    none
  else if 1 + dataLen ≥ input.length || dataLen < 6 then
    none
  else
    let hrp := input.take (input.length - (1 + dataLen))
    let body := input.drop (input.length - dataLen)
    if hrp.any fun ch => ch < 33 || ch > 126 then
      none
    else
      match body.mapM charsetRev with
      | none => none
      | some values =>
        if (hrp ++ body).any isLower && (hrp ++ body).any isUpper then
          none
        else
          let chk := bech32Checksum hrp values
          let data := values.take (dataLen - 6)
          if chk = 1 then some (.bech32, hrp.map toLower, data)
          else if chk = 0x2bc830a3 then some (.bech32m, hrp.map toLower, data)
          else none

/-- `convert_bits` from groups of five bits to bytes, with the bits left over in
    `val`, a `uint32_t`. A byte is full at most once per group. -/
def convertBits : (values : List Nat) → (val bits : Nat) → List UInt8 × Nat × Nat
  | [], val, bits => ([], val, bits)
  | v :: values, val, bits =>
    let val := ((val <<< 5) ||| v) % 2 ^ 32
    if bits + 5 ≥ 8 then
      let (out, left) := convertBits values val (bits + 5 - 8)
      (UInt8.ofNat ((val >>> (bits + 5 - 8)) &&& 0xff) :: out, left)
    else
      convertBits values val (bits + 5)

/-- `segwit_addr_decode`: the witness version and program. -/
def segwitAddrDecode (hrp addr : List UInt8) : Option (Nat × List UInt8) :=
  match bech32Decode addr with
  | none => none
  | some (enc, hrpActual, data) =>
    match data with
    | [] => none
    | witver :: values =>
      let (witdata, val, bits) := convertBits values 0 0
      if data.length > 65 || hrp ≠ hrpActual || witver > 16 then none
      else if witver = 0 && enc ≠ .bech32 then none
      else if witver > 0 && enc ≠ .bech32m then none
      else if ((val <<< (8 - bits)) % 2 ^ 32) &&& 0xff ≠ 0 || bits ≥ 5 then none
      else if witdata.length < 2 || witdata.length > 40 then none
      else if witver = 0 && witdata.length ≠ 20 && witdata.length ≠ 32 then none
      else some (witver, witdata)

/-! ## What a decoded address looks like -/

theorem charsetRev_lt {ch : UInt8} {v : Nat} (h : charsetRev ch = some v) : v < 32 := by
  simp only [charsetRev] at h
  split at h
  · have hlen : bech32Charset.length = 32 := by decide
    obtain ⟨hv, -⟩ := List.idxOf?_eq_some_iff.mp h
    omega
  · cases h

/-- Text behind the last separator, and text before it. -/
theorem exists_split_of_dataLen_lt {input : List UInt8}
    (hlt : 1 + bech32DataLen input < input.length) :
    ∃ front body, input = front ++ bech32Separator :: body ∧ bech32Separator ∉ body ∧
      body.length = bech32DataLen input := by
  have hsplit := List.takeWhile_append_dropWhile (p := (· ≠ bech32Separator))
    (l := input.reverse)
  cases hdrop : input.reverse.dropWhile (· ≠ bech32Separator) with
  | nil =>
    rw [hdrop, List.append_nil] at hsplit
    have hlen := congrArg List.length hsplit
    rw [List.length_reverse] at hlen
    simp only [bech32DataLen] at hlt
    omega
  | cons ch rest =>
    have hch : ch = bech32Separator := by
      have hne : input.reverse.dropWhile (· ≠ bech32Separator) ≠ [] := by
        rw [hdrop]
        exact List.cons_ne_nil _ _
      have hhead := List.head_dropWhile_not _ hne
      simp_rw [hdrop, List.head_cons] at hhead
      exact not_not.mp (of_decide_eq_false hhead)
    subst hch
    refine ⟨rest.reverse, (input.reverse.takeWhile (· ≠ bech32Separator)).reverse,
      ?_, ?_, ?_⟩
    · rw [hdrop] at hsplit
      have hrev := congrArg List.reverse hsplit
      simpa using hrev.symm
    · intro hmem
      have hne := List.mem_takeWhile_imp (List.mem_reverse.mp hmem)
      simp at hne
    · simp [bech32DataLen]

theorem toLower_of_not_isUpper {ch : UInt8} (h : isUpper ch = false) : toLower ch = ch := by
  simp [toLower, h]

/-- What `bech32_decode` has checked about a text it accepts, except for the
    checksum. -/
structure Bech32Decoded (input hrp : List UInt8) (data : List Nat) : Prop where
  parts : ∃ front body values, input = front ++ bech32Separator :: body ∧
    bech32Separator ∉ body ∧ hrp = front.map toLower ∧ body.mapM charsetRev = some values ∧
    data = values.take (values.length - 6) ∧
    ((front ++ body).any isLower && (front ++ body).any isUpper) = false

theorem bech32Decode_eq_some {input hrp : List UInt8} {enc : Bech32Encoding} {data : List Nat}
    (h : bech32Decode input = some (enc, hrp, data)) : Bech32Decoded input hrp data := by
  simp only [bech32Decode] at h
  split at h
  · cases h
  · split at h
    · cases h
    · next hlen =>
      simp only [Bool.or_eq_true, decide_eq_true_eq, not_or, not_le, not_lt] at hlen
      obtain ⟨front, body, hinput, hbody, hbodyLen⟩ := exists_split_of_dataLen_lt hlen.1
      have hfront : input.take (input.length - (1 + bech32DataLen input)) = front := by
        rw [← hbodyLen]
        subst hinput
        simp [Nat.add_comm]
      have hrest : input.drop (input.length - bech32DataLen input) = body := by
        rw [← hbodyLen, hinput, List.append_cons]
        apply List.drop_left'
        simp only [List.length_append, List.length_singleton]
        omega
      rw [hfront, hrest] at h
      split at h
      · cases h
      · split at h
        · cases h
        · next values hvalues =>
          split at h
          · cases h
          · next hcase =>
            have hdata : data = values.take (bech32DataLen input - 6) ∧
                hrp = front.map toLower := by
              split at h
              · cases h
                exact ⟨rfl, rfl⟩
              · split at h
                · cases h
                  exact ⟨rfl, rfl⟩
                · cases h
            refine ⟨front, body, values, hinput, hbody, hdata.2, hvalues, ?_, ?_⟩
            · rw [hdata.1, length_of_mapM_eq_some hvalues, hbodyLen]
            · simpa using hcase

/-- What `segwit_addr_decode` has checked, and where its result comes from. -/
theorem segwitAddrDecode_eq_some {hrp addr prog : List UInt8} {witver : Nat}
    (h : segwitAddrDecode hrp addr = some (witver, prog)) :
    ∃ values, Bech32Decoded addr hrp (witver :: values) ∧ prog = (convertBits values 0 0).1 ∧
      prog.length ≤ 40 := by
  simp only [segwitAddrDecode] at h
  split at h
  · cases h
  · next enc hrpActual data hdecode =>
    split at h
    · cases h
    · next ver values =>
      split_ifs at h with hhrp _ _ _ hprog
      simp only [Option.some.injEq, Prod.mk.injEq] at h
      obtain ⟨rfl, rfl⟩ := h
      refine ⟨values, ?_, rfl, ?_⟩
      · have hhrp : hrp = hrpActual := by
          simp only [Bool.or_eq_true, not_or, decide_eq_true_eq, ne_eq, not_not] at hhrp
          exact hhrp.1.2
        rw [hhrp]
        exact bech32Decode_eq_some hdecode
      · simp only [Bool.or_eq_true, decide_eq_true_eq, not_or, not_lt] at hprog
        exact hprog.2

end ChirpGateway
