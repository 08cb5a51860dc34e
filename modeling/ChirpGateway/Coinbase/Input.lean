import ChirpGateway.Lib.Bytes
import ChirpGateway.Template.Data

/-!
# The coinbase script

`generate_coinbase_input` (`datum_coinbaser.c:64-206`) for a gateway that mines
without a pool. The source writes hexadecimal text; here are its bytes.
-/

namespace ChirpGateway

open Bytes

/-- `MAX_COINBASE_TAG_SPACE`. -/
def maxCoinbaseTagSpace : Nat := 86

/-- The settings of the coinbase script, as `datum_conf.c:593-600` admits
    them. -/
structure CoinbaseTags where
  miningCoinbaseTagPrimary : List UInt8
  miningCoinbaseTagSecondary : List UInt8
  coinbaseUniqueId : UInt16
  primeId : UInt32
  primary_length : miningCoinbaseTagPrimary.length ≤ 60
  secondary_length : miningCoinbaseTagSecondary.length ≤ 60

/-- The loop of `append_UNum_hex`: the bytes of a positive number, with a zero
    behind a last byte of 0x80 and above. -/
def unumBytes (n : Nat) : List UInt8 :=
  if n = 0 then []
  else if n < 256 then
    if n ≥ 0x80 then [UInt8.ofNat n, 0] else [UInt8.ofNat n]
  else UInt8.ofNat n :: unumBytes (n / 256)

/-- `append_UNum_hex`. -/
def appendUNum (n : Nat) : List UInt8 :=
  if n = 0 then [0]
  else if n ≤ 16 then [UInt8.ofNat (0x50 + n)]
  else UInt8.ofNat (unumBytes n).length :: unumBytes n

/-- The height, which passes through an `int`. -/
def coinbaseHeight (height : UInt32) : Nat :=
  if height.toNat < 2 ^ 31 then height.toNat else 2 ^ 64 - 2 ^ 32 + height.toNat

/-- The opcode that pushes so many bytes. -/
def pushBytes (size : Nat) : List UInt8 :=
  if size ≤ 75 then [UInt8.ofNat size] else [0x4c, UInt8.ofNat size]

/-- `b2b_hl`. -/
def b2bHeadline (tmpl : DatumTemplate) : List UInt8 :=
  if tmpl.headerVersion ≥ 2 then tmpl.blake2bHeadline else []

/-- `sec_tag`: the configured tag and the name of the supplier. -/
def secTag (tags : CoinbaseTags) (supName : List UInt8) : List UInt8 :=
  let text :=
    if supName.isEmpty then tags.miningCoinbaseTagSecondary
    else if tags.miningCoinbaseTagSecondary.isEmpty then supName
    else tags.miningCoinbaseTagSecondary ++ ascii "/" ++ supName
  text.take 95

/-- What is left of the second tag, and `k`, once the tags are cut to the space.
    Removing the second tag takes one byte off `k`, whatever its length was. -/
def fitTags (maxTagSpace len0 len1 : Nat) : Nat × Nat :=
  let k := len0 + len1 + 2 - (if len1 = 0 then (if len0 = 0 then 2 else 1) else 0)
  let excess := k - maxTagSpace
  if k > maxTagSpace then
    if len1 > excess then (len1 - excess, maxTagSpace)
    else if len1 ≠ 0 then (0, k - 1)
    else (len1, k)
  else
    (len1, k)

/-- The tags, each with what closes it. -/
def tagContent (primary secTag : List UInt8) : List UInt8 :=
  (if !primary.isEmpty then primary ++ [if secTag.isEmpty then 0 else 0x2f]
    else if !secTag.isEmpty then [0x2f]
    else []) ++
  (if secTag.isEmpty then [] else secTag ++ [0])

/-- The push of the tags in so much space; `none` is the panic. -/
def tagPush (maxTagSpace : Nat) (primary secTag : List UInt8) : Option (List UInt8) :=
  let (len1, k) := fitTags maxTagSpace primary.length secTag.length
  if k > maxTagSpace then none
  else if k > 0 then some (pushBytes k ++ tagContent primary (secTag.take len1))
  else some [1, 0]

/-- What `generate_coinbase_input` returns. -/
structure CoinbaseInput where
  bytes : List UInt8
  targetPotIndex : Nat
  deriving DecidableEq

/-- The unique ID behind the byte for the share target. -/
def uniqueIdBytes (tags : CoinbaseTags) : List UInt8 :=
  let id := tags.coinbaseUniqueId.toNat
  let prime := tags.primeId.toNat
  [UInt8.ofNat id, UInt8.ofNat (id >>> 8)] ++
    if prime = 0 then []
    else [UInt8.ofNat prime, UInt8.ofNat (prime >>> 8), UInt8.ofNat (prime >>> 16),
      UInt8.ofNat (prime >>> 24)]

/-- `generate_coinbase_input`. -/
def generateCoinbaseInput (tags : CoinbaseTags) (tmpl : DatumTemplate) (supName : List UInt8) :
    Option CoinbaseInput :=
  let headline := b2bHeadline tmpl
  let maxTagSpace :=
    maxCoinbaseTagSpace - (if headline.isEmpty then 0 else headline.length + 2)
  let front := appendUNum (coinbaseHeight tmpl.height) ++
    if headline.isEmpty then [] else pushBytes headline.length ++ headline
  match tagPush maxTagSpace tags.miningCoinbaseTagPrimary (secTag tags supName) with
  | none => none
  | some push =>
    let uniqueId := uniqueIdBytes tags
    some {
      bytes := front ++ push ++ UInt8.ofNat (uniqueId.length + 1) :: 0xff :: uniqueId
      targetPotIndex := (front ++ push).length + 1 }

/-! ## Its length -/

theorem length_unumBytes_le {n size : Nat} (hn : n < 256 ^ size) :
    (unumBytes n).length ≤ size + 1 := by
  induction size generalizing n with
  | zero =>
    have hzero : n = 0 := by omega
    rw [unumBytes, if_pos hzero]
    exact Nat.zero_le _
  | succ size ih =>
    rw [unumBytes]
    split
    · exact Nat.zero_le _
    · split
      · split
        · exact Nat.le_add_left 2 size
        · exact Nat.le_add_left 1 (size + 1)
      · rw [List.length_cons]
        have hlt : n / 256 < 256 ^ size := by
          apply Nat.div_lt_of_lt_mul
          rwa [Nat.pow_succ, Nat.mul_comm] at hn
        exact Nat.succ_le_succ (ih hlt)

theorem length_appendUNum_le (height : UInt32) :
    (appendUNum (coinbaseHeight height)).length ≤ 10 := by
  have hlt : coinbaseHeight height < 256 ^ 8 := by
    have hheight := height.toNat_lt
    rw [coinbaseHeight]
    split <;> omega
  have hlen := length_unumBytes_le hlt
  rw [appendUNum]
  split
  · decide
  · split
    · exact Nat.le_add_left 1 9
    · rw [List.length_cons]
      omega

theorem length_pushBytes_le (size : Nat) : (pushBytes size).length ≤ 2 := by
  rw [pushBytes]
  split <;> simp

theorem length_tagContent_le (primary secTag : List UInt8) :
    (tagContent primary secTag).length ≤ primary.length + secTag.length + 2 := by
  have hprimary : (if !primary.isEmpty then primary ++ [if secTag.isEmpty then 0 else 0x2f]
      else if !secTag.isEmpty then [0x2f] else []).length ≤ primary.length + 1 := by
    split
    · simp
    · split <;> simp
  have hsecondary : (if secTag.isEmpty then [] else secTag ++ [(0 : UInt8)]).length ≤
      secTag.length + 1 := by
    split <;> simp
  rw [tagContent, List.length_append]
  omega

theorem length_tagPush_le {maxTagSpace : Nat} {primary secTag push : List UInt8}
    (h : tagPush maxTagSpace primary secTag = some push) :
    push.length ≤ primary.length + secTag.length + 4 := by
  simp only [tagPush] at h
  split at h
  · cases h
  · split at h
    · cases h
      have hpush := length_pushBytes_le (fitTags maxTagSpace primary.length secTag.length).2
      have hcontent := length_tagContent_le primary
        (secTag.take (fitTags maxTagSpace primary.length secTag.length).1)
      rw [List.length_append]
      rw [List.length_take] at hcontent
      omega
    · cases h
      simp

/-- The script is never longer than this, though only 100 bytes are valid. -/
theorem length_generateCoinbaseInput_le {tags : CoinbaseTags} {tmpl : DatumTemplate}
    {supName : List UInt8} {input : CoinbaseInput}
    (h : generateCoinbaseInput tags tmpl supName = some input) : input.bytes.length ≤ 279 := by
  simp only [generateCoinbaseInput] at h
  split at h
  · cases h
  · next push hpush =>
    cases h
    have hunum := length_appendUNum_le tmpl.height
    have htags := length_tagPush_le hpush
    have hprimary := tags.primary_length
    have hsecondary : (secTag tags supName).length ≤ 95 := List.length_take_le _ _
    have hheadline : (if (b2bHeadline tmpl).isEmpty then ([] : List UInt8)
        else pushBytes (b2bHeadline tmpl).length ++ b2bHeadline tmpl).length ≤ 102 := by
      have hlen : (b2bHeadline tmpl).length ≤ 100 := by
        rw [b2bHeadline]
        split
        · exact tmpl.headline_length
        · exact Nat.zero_le _
      have hop := length_pushBytes_le (b2bHeadline tmpl).length
      split
      · exact Nat.zero_le _
      · rw [List.length_append]
        omega
    have hunique : (uniqueIdBytes tags).length ≤ 6 := by
      simp only [uniqueIdBytes, List.length_append]
      split <;> simp
    simp only [List.length_append, List.length_cons]
    omega

end ChirpGateway
