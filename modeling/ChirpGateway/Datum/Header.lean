import ChirpGateway.Lib.ChainedCodec
import ChirpGateway.Lib.Tables
import ChirpGateway.Lib.Wire

/-!
# Headers of the DATUM protocol

`T_DATUM_PROTOCOL_HEADER` (`datum_protocol.h:62-69`), four bytes that are masked
with a key, and the next key (`datum_protocol.c:155-176`).
-/

namespace ChirpGateway

open Wire

/-- `T_DATUM_PROTOCOL_HEADER`, from the low bits on. -/
structure DatumHeader where
  cmdLen : Nat
  reserved : Fin 4
  isSigned : Bool
  isEncryptedPubkey : Bool
  isEncryptedChannel : Bool
  protoCmd : Fin 32
  cmdLen_lt : cmdLen < 2 ^ 22
  deriving DecidableEq

namespace DatumHeader

/-- The header as the number its four bytes denote. -/
def toNat (h : DatumHeader) : Nat :=
  h.cmdLen + 2 ^ 22 * (h.reserved.val + 4 * (h.isSigned.toNat + 2 * (h.isEncryptedPubkey.toNat +
    2 * (h.isEncryptedChannel.toNat + 2 * h.protoCmd.val))))

theorem toNat_lt (h : DatumHeader) : h.toNat < 2 ^ 32 := by
  have hlen := h.cmdLen_lt
  have hreserved := h.reserved.isLt
  have hcmd := h.protoCmd.isLt
  have hsigned := Bool.toNat_lt h.isSigned
  have hpubkey := Bool.toNat_lt h.isEncryptedPubkey
  have hchannel := Bool.toNat_lt h.isEncryptedChannel
  rw [toNat]
  omega

/-- The bits of a word. -/
def ofNat (word : Nat) : DatumHeader where
  cmdLen := word % 2 ^ 22
  reserved := ⟨word / 2 ^ 22 % 4, Nat.mod_lt _ (by decide)⟩
  isSigned := word / 2 ^ 24 % 2 = 1
  isEncryptedPubkey := word / 2 ^ 25 % 2 = 1
  isEncryptedChannel := word / 2 ^ 26 % 2 = 1
  protoCmd := ⟨word / 2 ^ 27 % 32, Nat.mod_lt _ (by decide)⟩
  cmdLen_lt := Nat.mod_lt _ (Nat.two_pow_pos 22)

theorem ofNat_toNat (h : DatumHeader) : ofNat h.toNat = h := by
  obtain ⟨cmdLen, ⟨reserved, hreserved⟩, isSigned, isEncryptedPubkey, isEncryptedChannel,
    ⟨protoCmd, hcmd⟩, hlen⟩ := h
  have hbit (b : Bool) : b.toNat < 2 := Bool.toNat_lt b
  have hsigned := hbit isSigned
  have hpubkey := hbit isEncryptedPubkey
  have hchannel := hbit isEncryptedChannel
  have hback (b : Bool) (n : Nat) (h : n = b.toNat) : decide (n = 1) = b := by
    cases b <;> simp [h]
  simp only [ofNat, toNat, DatumHeader.mk.injEq, Fin.mk.injEq]
  refine ⟨by omega, by omega, hback _ _ (by omega), hback _ _ (by omega), hback _ _ (by omega),
    by omega⟩

end DatumHeader

/-- `datum_xor_header_key` on the four bytes of a header. -/
def maskedHeader (key : UInt32) (h : DatumHeader) : List UInt8 :=
  leBytes 4 (h.toNat ^^^ key.toNat)

/-- The header that is unmasked again. -/
def unmaskHeader (key : UInt32) (bytes : List UInt8) : DatumHeader :=
  DatumHeader.ofNat (leValue bytes ^^^ key.toNat)

/-- `(x << r) | (x >> (32 - r))`. -/
def rotl32 (x : UInt32) (r : UInt32) : UInt32 := (x <<< r) ||| (x >>> (32 - r))

/-- `datum_header_xor_feedback`. -/
def headerXorFeedback (i : UInt32) : UInt32 :=
  let s : UInt32 := 0xb10cfeed
  let k := rotl32 (i * 0xcc9e2d51) 15 * 0x1b873593
  let h := rotl32 (s ^^^ k) 13 * 5 + 0xe6546b64
  let h := h ^^^ 4
  let h := (h ^^^ (h >>> 16)) * 0x85ebca6b
  let h := (h ^^^ (h >>> 13)) * 0xc2b2ae35
  h ^^^ (h >>> 16)

@[simp] theorem length_maskedHeader (key : UInt32) (h : DatumHeader) :
    (maskedHeader key h).length = 4 := length_leBytes 4 _

theorem unmaskHeader_maskedHeader (key : UInt32) (h : DatumHeader) :
    unmaskHeader key (maskedHeader key h) = h := by
  have hlt : h.toNat ^^^ key.toNat < 256 ^ 4 :=
    Nat.xor_lt_two_pow h.toNat_lt key.toNat_lt
  rw [unmaskHeader, maskedHeader, leValue_leBytes_of_lt hlt, Nat.xor_assoc, Nat.xor_self,
    Nat.xor_zero, DatumHeader.ofNat_toNat]

end ChirpGateway
