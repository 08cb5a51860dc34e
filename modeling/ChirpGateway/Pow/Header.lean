import ChirpGateway.Lib.Bytes
import ChirpGateway.Lib.Wire

/-!
# The proof of work of header version 2

`datum_pow.c:105-287`: the commitment of a header, the work root and the work
header a miner hashes, the hash itself, and the 164 bytes of the header. `sha256`
and `blake2b` are the two hash functions.
-/

namespace ChirpGateway

open Bytes Wire

/-- The fields of a header of version 2. `nonce` and `ntime` are as the miner sends
    them. -/
structure HeaderV2 where
  version : UInt32
  prevhash : List UInt8
  merkle : Hash32
  timeOnWire : UInt32
  nbits : UInt32
  nonce : List UInt8
  ntime : List UInt8
  extranonce : List UInt8
  txcount : UInt16
  flags : UInt8
  xorKeyMaskClearBits : UInt8
  xorKey : List UInt8
  height : UInt32
  rhs : List UInt8
  deriving DecidableEq

/-- Byte strings of the lengths the arrays of the source have. -/
structure HeaderV2.Sized (header : HeaderV2) : Prop where
  prevhash : header.prevhash.length = 32
  nonce : header.nonce.length = 8
  ntime : header.ntime.length = 8
  extranonce : header.extranonce.length = 12
  xorKey : header.xorKey.length = 16
  rhs : header.rhs.length = 32

/-- `GetCompleteVersion`: the flag of header version 2 is always set. -/
def completeVersion (version : UInt32) : UInt32 := version ||| 0x80000000

section Hashes

variable (sha256 : List UInt8 → Hash32) (blake2b : List UInt8 → Hash32)

/-- `double_sha256`. -/
def doubleSha256 (data : List UInt8) : Hash32 := sha256 (sha256 data).bytes

/-- Two nodes of the Merkle tree. -/
def hashPair (left right : Hash32) : Hash32 := doubleSha256 sha256 (left.bytes ++ right.bytes)

/-- `datum_sha256_tagged`. -/
def sha256Tagged (tag : String) (data : List UInt8) : Hash32 :=
  sha256 ((sha256 (ascii tag)).bytes ++ (sha256 (ascii tag)).bytes ++ data)

/-- `datum_blake2b_xor_key_hash`. -/
def xorKeyHash (xorKey : List UInt8) : Hash32 :=
  sha256Tagged sha256 "Bitcoin block hash PoW XOR key" xorKey

/-- `datum_blake2b_xor_key_mask`: the first bits are cleared, and a null key masks
    nothing. -/
def xorKeyMask (xorKey : List UInt8) (clearBits : UInt8) : List UInt8 :=
  if xorKey = List.replicate 16 0 then List.replicate 32 0
  else
    (sha256Tagged sha256 "Bitcoin block hash PoW XOR mask" xorKey).bytes.mapIdx fun i byte =>
      if i < clearBits.toNat / 8 then 0
      else if i = clearBits.toNat / 8 then byte &&& (0xff >>> (clearBits % 8))
      else byte

/-- `datum_blake2b_sia_coinb1`. -/
def siaCoinb1 (commitment : Hash32) : List UInt8 :=
  List.replicate 3 0 ++ commitment.bytes ++ List.replicate 4 0

/-- `datum_blake2b_sia_prevhash`. -/
def siaPrevhash (prevhash : List UInt8) : List UInt8 :=
  List.replicate 6 0 ++
    (sha256Tagged sha256 "Bitcoin prevblock header, hashed" prevhash.reverse).bytes.drop 6

/-- `datum_blake2b_build_work_header`. -/
def workHeader (prevhash nonce ntime : List UInt8) (root : Hash32) : List UInt8 :=
  siaPrevhash sha256 prevhash ++ (nonce ++ (ntime ++ root.bytes))

/-- `h1_payload`. -/
def h1Payload (version : UInt32) (prevhash : List UInt8) (height : UInt32) (merkle : Hash32)
    (timeOnWire nbits txcount : UInt32) (flags clearBits : UInt8) (xorKey : List UInt8) :
    List UInt8 :=
  leBytes 4 (completeVersion version).toNat ++ prevhash.reverse ++ leBytes 4 height.toNat ++
    merkle.bytes ++ leBytes 4 timeOnWire.toNat ++ [0] ++ leBytes 4 nbits.toNat ++
    leBytes 4 txcount.toNat ++ [flags, clearBits] ++ (xorKeyHash sha256 xorKey).bytes

/-- `datum_blake2b_header_commitment`. -/
def headerCommitment (version : UInt32) (prevhash : List UInt8) (height : UInt32)
    (merkle : Hash32) (timeOnWire nbits txcount : UInt32) (flags clearBits : UInt8)
    (xorKey rhs : List UInt8) : Hash32 :=
  let h1 := sha256Tagged sha256 "Bitcoin block header 1" (h1Payload sha256 version prevhash height
    merkle timeOnWire nbits txcount flags clearBits xorKey)
  sha256Tagged sha256 "Merge-mining hook" (h1.bytes ++ List.replicate 32 0 ++ rhs)

/-- `datum_blake2b_work_root`. -/
def workRoot (commitment : Hash32) (extranonce : List UInt8) : Hash32 :=
  blake2b (0 :: (siaCoinb1 commitment ++ extranonce))

/-- `datum_blake2b_pow_hash_le`. -/
def powHashLe (work xorKey : List UInt8) (clearBits : UInt8) : List UInt8 :=
  (List.zipWith (· ^^^ ·) (blake2b work).bytes (xorKeyMask sha256 xorKey clearBits)).reverse

/-- The hash a node computes from the fields of a header. -/
def HeaderV2.powHash (header : HeaderV2) : List UInt8 :=
  let commitment := headerCommitment sha256 header.version header.prevhash header.height
    header.merkle header.timeOnWire header.nbits (UInt32.ofNat header.txcount.toNat) header.flags
    header.xorKeyMaskClearBits header.xorKey header.rhs
  let root := workRoot blake2b commitment header.extranonce
  powHashLe sha256 blake2b (workHeader sha256 header.prevhash header.nonce header.ntime root)
    header.xorKey header.xorKeyMaskClearBits

end Hashes

/-- `datum_blake2b_serialize_block_header`. -/
def serializeBlockHeader (header : HeaderV2) : List UInt8 :=
  leBytes 4 (completeVersion header.version).toNat ++ (header.prevhash ++ (header.merkle.bytes ++
    (leBytes 4 header.timeOnWire.toNat ++ (leBytes 4 header.nbits.toNat ++ (header.nonce ++
      (header.ntime.drop 4 ++ (List.replicate 4 0 ++ (header.extranonce ++ (header.ntime.take 4 ++
        (leBytes 2 header.txcount.toNat ++ ([header.flags] ++ ([header.xorKeyMaskClearBits] ++
          (header.xorKey ++ (leBytes 4 header.height.toNat ++ header.rhs))))))))))))))

/-- `compare_hashes`, little-endian numbers of one length: the first difference
    from the end decides. -/
def compareHashes (shareHash target : List UInt8) : Int :=
  match (shareHash.zip target).reverse.find? fun pair => pair.1 ≠ pair.2 with
  | none => 0
  | some (share, limit) => if share < limit then -1 else 1

/-- No target is below zero. -/
theorem compareHashes_zero_le (size : Nat) (target : List UInt8) :
    compareHashes (List.replicate size 0) target ≤ 0 := by
  unfold compareHashes
  split
  · exact Int.le_refl 0
  · next share limit hfound =>
    have hmem := List.mem_of_find?_eq_some hfound
    have hne := List.find?_some hfound
    rw [List.mem_reverse] at hmem
    have hzero : share = 0 := List.eq_of_mem_replicate (List.of_mem_zip hmem).1
    have hpos : share < limit := by
      rw [hzero] at hne ⊢
      rw [decide_eq_true_eq] at hne
      exact UInt8.pos_iff_ne_zero.mpr (Ne.symm hne)
    rw [if_pos hpos]
    decide

/-- Nothing but zero is within a target of zero. -/
theorem eq_zero_of_compareHashes_zero {shareHash : List UInt8} {size : Nat}
    (hlen : shareHash.length = size)
    (h : compareHashes shareHash (List.replicate size 0) ≤ 0) :
    shareHash = List.replicate size 0 := by
  have hnone : (shareHash.zip (List.replicate size 0)).reverse.find?
      (fun pair => pair.1 ≠ pair.2) = none := by
    unfold compareHashes at h
    split at h
    · assumption
    · next share limit hfind =>
      have hmem := List.mem_reverse.mp (List.mem_of_find?_eq_some hfind)
      have hlimit : limit = 0 := List.eq_of_mem_replicate (List.of_mem_zip hmem).2
      rw [hlimit, if_neg (fun hlt : share < 0 => Nat.not_lt_zero _ hlt)] at h
      exact absurd h (by decide)
  apply List.ext_getElem
  · rw [hlen, List.length_replicate]
  · intro i hi hi'
    have hpair := List.find?_eq_none.mp hnone (shareHash[i], (List.replicate size 0)[i])
      (List.mem_reverse.mpr (List.mem_iff_getElem.mpr ⟨i, by simpa [hlen] using hi, by simp⟩))
    simpa using hpair

/-! ## Reading a header -/

/-- The fields of 164 bytes, in the order `serialize_block_header` writes them. The
    four bytes behind the upper half of the time are not used. -/
def readHeader (bytes : List UInt8) : Option HeaderV2 := do
  let (version, bytes) ← readLe 4 bytes
  let (prevhash, bytes) ← readBytes 32 bytes
  let (merkle, bytes) ← readBytes 32 bytes
  let (timeOnWire, bytes) ← readLe 4 bytes
  let (nbits, bytes) ← readLe 4 bytes
  let (nonce, bytes) ← readBytes 8 bytes
  let (ntimeHigh, bytes) ← readBytes 4 bytes
  let (_, bytes) ← readBytes 4 bytes
  let (extranonce, bytes) ← readBytes 12 bytes
  let (ntimeLow, bytes) ← readBytes 4 bytes
  let (txcount, bytes) ← readLe 2 bytes
  let (flags, bytes) ← readLe 1 bytes
  let (clearBits, bytes) ← readLe 1 bytes
  let (xorKey, bytes) ← readBytes 16 bytes
  let (height, rhs) ← readLe 4 bytes
  if h : merkle.length = 32 ∧ rhs.length = 32 then
    some {
      version := UInt32.ofNat version
      prevhash, merkle := { bytes := merkle, length_eq := h.1 }
      timeOnWire := UInt32.ofNat timeOnWire
      nbits := UInt32.ofNat nbits
      nonce, ntime := ntimeLow ++ ntimeHigh
      extranonce, txcount := UInt16.ofNat txcount
      flags := UInt8.ofNat flags
      xorKeyMaskClearBits := UInt8.ofNat clearBits
      xorKey, height := UInt32.ofNat height, rhs }
  else
    none

theorem length_serializeBlockHeader {header : HeaderV2} (h : header.Sized) :
    (serializeBlockHeader header).length = 164 := by
  simp [serializeBlockHeader, h.prevhash, h.nonce, h.ntime, h.extranonce, h.xorKey, h.rhs,
    header.merkle.length_eq]

theorem byte_eq_leBytes (byte : UInt8) : [byte] = leBytes 1 byte.toNat := by
  rw [leBytes, UInt8.ofNat_toNat]
  rfl

/-- A header is read back, with the flag of its version set. -/
theorem readHeader_serializeBlockHeader {header : HeaderV2} (h : header.Sized) :
    readHeader (serializeBlockHeader header) =
      some { header with version := completeVersion header.version } := by
  have hhigh : (header.ntime.drop 4).length = 4 := by
    rw [List.length_drop, h.ntime]
  have hlow : (header.ntime.take 4).length = 4 := by
    rw [List.length_take, h.ntime]
    rfl
  have hword (n : UInt32) : n.toNat < 256 ^ 4 := n.toNat_lt
  have hhalf (n : UInt16) : n.toNat < 256 ^ 2 := n.toNat_lt
  have hbyte (n : UInt8) : n.toNat < 256 ^ 1 := n.toNat_lt
  have hsingle (byte : UInt8) (rest : List UInt8) :
      readLe 1 ([byte] ++ rest) = some (byte.toNat, rest) := by
    rw [byte_eq_leBytes, readLe_append (hbyte byte)]
  rw [readHeader, serializeBlockHeader]
  apply Option.bind_eq_some_iff.mpr ⟨_, readLe_append (hword _) _, ?_⟩
  apply Option.bind_eq_some_iff.mpr ⟨_, readBytes_append h.prevhash _, ?_⟩
  apply Option.bind_eq_some_iff.mpr ⟨_, readBytes_append header.merkle.length_eq _, ?_⟩
  apply Option.bind_eq_some_iff.mpr ⟨_, readLe_append (hword _) _, ?_⟩
  apply Option.bind_eq_some_iff.mpr ⟨_, readLe_append (hword _) _, ?_⟩
  apply Option.bind_eq_some_iff.mpr ⟨_, readBytes_append h.nonce _, ?_⟩
  apply Option.bind_eq_some_iff.mpr ⟨_, readBytes_append hhigh _, ?_⟩
  apply Option.bind_eq_some_iff.mpr ⟨_, readBytes_append List.length_replicate _, ?_⟩
  apply Option.bind_eq_some_iff.mpr ⟨_, readBytes_append h.extranonce _, ?_⟩
  apply Option.bind_eq_some_iff.mpr ⟨_, readBytes_append hlow _, ?_⟩
  apply Option.bind_eq_some_iff.mpr ⟨_, readLe_append (hhalf _) _, ?_⟩
  apply Option.bind_eq_some_iff.mpr ⟨_, hsingle _ _, ?_⟩
  apply Option.bind_eq_some_iff.mpr ⟨_, hsingle _ _, ?_⟩
  apply Option.bind_eq_some_iff.mpr ⟨_, readBytes_append h.xorKey _, ?_⟩
  apply Option.bind_eq_some_iff.mpr ⟨_, readLe_append (hword _) _, ?_⟩
  have hsizes : header.merkle.bytes.length = 32 ∧ header.rhs.length = 32 :=
    ⟨header.merkle.length_eq, h.rhs⟩
  simp only [dif_pos hsizes, List.take_append_drop, UInt32.ofNat_toNat, UInt16.ofNat_toNat,
    UInt8.ofNat_toNat]

end ChirpGateway
