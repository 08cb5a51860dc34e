import ChirpGateway.Coinbase.Coinbaser
import ChirpGateway.Lib.Transaction

/-!
# Share submissions on the wire

A submission is a head, some sections and an end mark
(`datum_protocol.c:1340-1531`). A server reads it into the eight jobs it
remembers: a job section replaces what stands there, a coinbase section adds to
it.
-/

namespace ChirpGateway

open Bytes Wire

/-! ## Sections -/

/-- The transactions of a template, in total. -/
structure TxnTotals where
  txnCount : UInt32
  txnTotalWeight : UInt32
  txnTotalSize : UInt32
  txnTotalSigops : UInt32
  deriving DecidableEq

def TxnTotals.encode (totals : TxnTotals) : List UInt8 :=
  leBytes 4 totals.txnCount.toNat ++ leBytes 4 totals.txnTotalWeight.toNat ++
    leBytes 4 totals.txnTotalSize.toNat ++ leBytes 4 totals.txnTotalSigops.toNat

/-- What the server is told about a job, in the widths of the wire. -/
structure JobContext where
  prevhash : Hash32
  targetByteIndex : UInt16
  nbits : UInt32
  coinbaserId : UInt8
  height : UInt32
  coinbaseValue : UInt64
  totals : TxnTotals
  merklebranches : List Hash32
  deriving DecidableEq

/-- The bytes behind `0x01`. -/
def JobContext.encode (context : JobContext) : List UInt8 :=
  context.prevhash.bytes ++ leBytes 2 context.targetByteIndex.toNat ++
    leBytes 4 context.nbits.toNat ++ leBytes 1 context.coinbaserId.toNat ++
    leBytes 4 context.height.toNat ++ leBytes 8 context.coinbaseValue.toNat ++
    context.totals.encode ++ leBytes 1 context.merklebranches.length ++
    context.merklebranches.flatMap Hash32.bytes

/-- A hash and what follows it. -/
def readHash (bytes : List UInt8) : Option (Hash32 × List UInt8) :=
  if h : 32 ≤ bytes.length then
    some (⟨bytes.take 32, List.length_take_of_le h⟩, bytes.drop 32)
  else
    none

def readTotals (bytes : List UInt8) : Option (TxnTotals × List UInt8) := do
  let (txnCount, rest) ← readLe 4 bytes
  let (txnTotalWeight, rest) ← readLe 4 rest
  let (txnTotalSize, rest) ← readLe 4 rest
  let (txnTotalSigops, rest) ← readLe 4 rest
  some
    ({ txnCount := UInt32.ofNat txnCount
       txnTotalWeight := UInt32.ofNat txnTotalWeight
       txnTotalSize := UInt32.ofNat txnTotalSize
       txnTotalSigops := UInt32.ofNat txnTotalSigops }, rest)

/-- A job section behind its first byte, and what follows it. -/
def readContext (bytes : List UInt8) : Option (JobContext × List UInt8) := do
  let (prevhash, rest) ← readHash bytes
  let (targetByteIndex, rest) ← readLe 2 rest
  let (nbits, rest) ← readLe 4 rest
  let (coinbaserId, rest) ← readLe 1 rest
  let (height, rest) ← readLe 4 rest
  let (coinbaseValue, rest) ← readLe 8 rest
  let (totals, rest) ← readTotals rest
  let (count, rest) ← readLe 1 rest
  let (merklebranches, rest) ← readMany readHash count rest
  some
    ({ prevhash
       targetByteIndex := UInt16.ofNat targetByteIndex
       nbits := UInt32.ofNat nbits
       coinbaserId := UInt8.ofNat coinbaserId
       height := UInt32.ofNat height
       coinbaseValue := UInt64.ofNat coinbaseValue
       totals
       merklebranches }, rest)

/-- A section of a submission. -/
inductive PowSection where
  /-- `0x03`: nonce and time of a BLAKE2b share -/
  | blake2b (ntime nonce : UInt64)
  /-- `0x04` -/
  | timeOnWire (time : UInt32)
  /-- `0x01` -/
  | job (context : JobContext)
  /-- `0x02` -/
  | coinbase (id : UInt8) (txn : StratumCoinbase)
  deriving DecidableEq

/-- `DATUM_POW_BLAKE2B`. -/
def datumPowBlake2b : UInt8 := 1

/-- The wire form of a section. -/
def PowSection.encode : PowSection → List UInt8
  | .blake2b ntime nonce =>
    0x03 :: datumPowBlake2b :: (leBytes 8 ntime.toNat ++ leBytes 8 nonce.toNat)
  | .timeOnWire time => 0x04 :: leBytes 4 time.toNat
  | .job context => 0x01 :: context.encode
  | .coinbase id txn =>
    0x02 :: id :: (leBytes 2 txn.coinb1Bin.length ++ leBytes 2 txn.coinb2Bin.length ++
      txn.coinb1Bin ++ txn.coinb2Bin)

/-- Counts that fit their fields. -/
def PowSection.Fits : PowSection → Prop
  | .job context => context.merklebranches.length < 256
  | .coinbase _ txn => txn.coinb1Bin.length < 65536 ∧ txn.coinb2Bin.length < 65536
  | _ => True

theorem readHash_bytes (hash : Hash32) (rest : List UInt8) :
    readHash (hash.bytes ++ rest) = some (hash, rest) := by
  have hlen : 32 ≤ (hash.bytes ++ rest).length := by
    rw [List.length_append, hash.length_eq]
    omega
  rw [readHash, dif_pos hlen]
  simp only [List.take_left' hash.length_eq, List.drop_left' hash.length_eq]

theorem readTotals_encode (totals : TxnTotals) (rest : List UInt8) :
    readTotals (totals.encode ++ rest) = some (totals, rest) := by
  have hword (word : UInt32) : word.toNat < 256 ^ 4 := word.toNat_lt
  simp only [TxnTotals.encode, List.append_assoc, readTotals, Option.bind_eq_bind,
    readLe_append (hword _), Option.bind_some, UInt32.ofNat_toNat]

theorem readContext_encode {context : JobContext} (h : context.merklebranches.length < 256)
    (rest : List UInt8) : readContext (context.encode ++ rest) = some (context, rest) := by
  have hbranches (rest : List UInt8) := readMany_flatMap
    (fun hash (_ : hash ∈ context.merklebranches) rest => readHash_bytes hash rest) rest
  have hcount : context.merklebranches.length < 256 ^ 1 := h
  have hidLt : context.coinbaserId.toNat < 256 ^ 1 := context.coinbaserId.toNat_lt
  have hindexLt : context.targetByteIndex.toNat < 256 ^ 2 := context.targetByteIndex.toNat_lt
  have hword (word : UInt32) : word.toNat < 256 ^ 4 := word.toNat_lt
  have hvalueLt : context.coinbaseValue.toNat < 256 ^ 8 := context.coinbaseValue.toNat_lt
  simp only [JobContext.encode, List.append_assoc, readContext, Option.bind_eq_bind,
    readHash_bytes, Option.bind_some, readLe_append hindexLt, readLe_append (hword _),
    readLe_append hidLt, readLe_append hvalueLt, readLe_append hcount,
    readTotals_encode, hbranches, UInt16.ofNat_toNat, UInt32.ofNat_toNat,
    UInt8.ofNat_toNat, UInt64.ofNat_toNat]

/-! ## The server -/

/-- What the server remembers under a job number. -/
structure ServerSlot where
  context : Option JobContext
  coinbase : UInt8 → Option StratumCoinbase

/-- A job section drops the coinbases of the job before. -/
def ServerSlot.apply (slot : ServerSlot) : PowSection → ServerSlot
  | .blake2b _ _ => slot
  | .timeOnWire _ => slot
  | .job context => { context := some context, coinbase := fun _ => none }
  | .coinbase id txn =>
    { slot with coinbase := fun i => if i = id then some txn else slot.coinbase i }

/-- A section and what follows it. -/
def readSection (bytes : List UInt8) : Option (PowSection × List UInt8) := do
  let (tag, rest) ← readLe 1 bytes
  if tag = 0x03 then
    let rest ← skip 1 rest
    let (ntime, rest) ← readLe 8 rest
    let (nonce, rest) ← readLe 8 rest
    some (.blake2b (UInt64.ofNat ntime) (UInt64.ofNat nonce), rest)
  else if tag = 0x04 then
    let (time, rest) ← readLe 4 rest
    some (.timeOnWire (UInt32.ofNat time), rest)
  else if tag = 0x01 then
    let (context, rest) ← readContext rest
    some (.job context, rest)
  else if tag = 0x02 then
    let (id, rest) ← readLe 1 rest
    let (size1, rest) ← readLe 2 rest
    let (size2, rest) ← readLe 2 rest
    let (coinb1Bin, rest) ← readBytes size1 rest
    let (coinb2Bin, rest) ← readBytes size2 rest
    some (.coinbase (UInt8.ofNat id) { coinb1Bin, coinb2Bin }, rest)
  else
    none

/-- The sections up to the end mark, of at most so many. -/
def serveSections : (fuel : Nat) → ServerSlot → List UInt8 → Option ServerSlot
  | 0, _, _ => none
  | fuel + 1, slot, bytes =>
    if bytes.head? = some 0xfe then
      some slot
    else
      (readSection bytes).bind fun read => serveSections fuel (slot.apply read.1) read.2

theorem readSection_encode {sec : PowSection} (h : sec.Fits) (rest : List UInt8) :
    readSection (sec.encode ++ rest) = some (sec, rest) := by
  have hbyte (tag : UInt8) (rest : List UInt8) :
      readLe 1 (tag :: rest) = some (tag.toNat, rest) := by
    have hlt : tag.toNat < 256 ^ 1 := tag.toNat_lt
    have htag : tag :: rest = leBytes 1 tag.toNat ++ rest := by
      rw [leBytes, leBytes, UInt8.ofNat_toNat]
      rfl
    rw [htag, readLe_append hlt]
  have hlong (number : UInt64) : number.toNat < 256 ^ 8 := number.toNat_lt
  have hskip (tag : UInt8) (rest : List UInt8) : skip 1 (tag :: rest) = some rest :=
    skip_append List.length_singleton rest
  cases sec with
  | blake2b ntime nonce =>
    simp [PowSection.encode, readSection, hbyte, hskip, readLe_append (hlong _)]
  | timeOnWire time =>
    have htime : time.toNat < 256 ^ 4 := time.toNat_lt
    simp [PowSection.encode, readSection, hbyte, readLe_append htime]
  | job context =>
    have hbranches : context.merklebranches.length < 256 := h
    have hcontext := readContext_encode hbranches rest
    simp [PowSection.encode, readSection, hbyte, hcontext]
  | coinbase id txn =>
    have hsize1 : txn.coinb1Bin.length < 256 ^ 2 := h.1
    have hsize2 : txn.coinb2Bin.length < 256 ^ 2 := h.2
    simp [PowSection.encode, readSection, hbyte, readLe_append hsize1, readLe_append hsize2,
      readBytes_append rfl]

theorem head?_encode_ne (sec : PowSection) (rest : List UInt8) :
    (sec.encode ++ rest).head? ≠ some 0xfe := by
  cases sec <;> simp [PowSection.encode]

/-- The server carries out the sections in their order. -/
theorem serveSections_encode {sections : List PowSection} (h : ∀ sec ∈ sections, sec.Fits)
    (slot : ServerSlot) {fuel : Nat} (hfuel : sections.length < fuel) (rest : List UInt8) :
    serveSections fuel slot (sections.flatMap PowSection.encode ++ 0xfe :: rest) =
      some (sections.foldl ServerSlot.apply slot) := by
  induction sections generalizing slot fuel with
  | nil =>
    cases fuel with
    | zero => cases hfuel
    | succ fuel => rfl
  | cons sec sections ih =>
    cases fuel with
    | zero => cases hfuel
    | succ fuel =>
      obtain ⟨hsec, hsections⟩ := List.forall_mem_cons.mp h
      rw [List.flatMap_cons, List.append_assoc, serveSections, if_neg (head?_encode_ne sec _),
        readSection_encode hsec, Option.bind_some, List.foldl_cons]
      exact ih hsections _ (Nat.lt_of_succ_lt_succ hfuel)

/-! ## Heads -/

/-- What a submission starts with. -/
structure PowHead where
  datumJobId : UInt8
  coinbaseId : UInt8
  flags : UInt8
  targetByte : UInt8
  ntime : UInt32
  nonce : UInt32
  version : UInt32
  extranonce : List UInt8
  username : List UInt8
  reserved : UInt8
  deriving DecidableEq

/-- Fields that are as long as the wire has them. -/
structure PowHead.Fits (head : PowHead) : Prop where
  extranonce_length : head.extranonce.length = 12
  noNul : 0 ∉ head.username

/-- The bytes in front of the sections. -/
def PowHead.encode (head : PowHead) : List UInt8 :=
  [0x27, head.datumJobId, head.coinbaseId, head.flags, head.targetByte] ++
    leBytes 4 head.ntime.toNat ++ leBytes 4 head.nonce.toNat ++ leBytes 4 head.version.toNat ++
    [12] ++ head.extranonce ++ head.username ++ [0] ++ [head.reserved, 0, 0, 0]

/-- A C string and what follows its end. -/
def readCString (bytes : List UInt8) : Option (List UInt8 × List UInt8) :=
  (skip 1 (bytes.drop (Buffer.cString bytes).length)).map fun rest => (Buffer.cString bytes, rest)

/-- A head and what follows it. -/
def readPowHead (bytes : List UInt8) : Option (PowHead × List UInt8) := do
  let (start, rest) ← readBytes 5 bytes
  let (ntime, rest) ← readLe 4 rest
  let (nonce, rest) ← readLe 4 rest
  let (version, rest) ← readLe 4 rest
  let rest ← skip 1 rest
  let (extranonce, rest) ← readBytes 12 rest
  let (username, rest) ← readCString rest
  let (reserved, rest) ← readBytes 4 rest
  if start.getD 0 0 = 0x27 then
    some
      ({ datumJobId := start.getD 1 0
         coinbaseId := start.getD 2 0
         flags := start.getD 3 0
         targetByte := start.getD 4 0
         ntime := UInt32.ofNat ntime
         nonce := UInt32.ofNat nonce
         version := UInt32.ofNat version
         extranonce
         username
         reserved := reserved.getD 0 0 }, rest)
  else
    none

theorem readCString_append {text : List UInt8} (htext : 0 ∉ text) (rest : List UInt8) :
    readCString (text ++ ([0] ++ rest)) = some (text, rest) := by
  have hheld : Buffer.Holds (text ++ ([0] ++ rest)) (text ++ [0]) :=
    ⟨rest, List.append_assoc _ _ _⟩
  have hskip : skip 1 ([0] ++ rest) = some rest := skip_append List.length_singleton rest
  rw [readCString, hheld.cString_eq htext, List.drop_left' rfl, hskip, Option.map_some]

theorem readPowHead_encode {head : PowHead} (h : head.Fits) (rest : List UInt8) :
    readPowHead (head.encode ++ rest) = some (head, rest) := by
  have hword (word : UInt32) : word.toNat < 256 ^ 4 := word.toNat_lt
  have hstart (rest : List UInt8) := readBytes_append (show [0x27, head.datumJobId,
    head.coinbaseId, head.flags, head.targetByte].length = 5 from rfl) rest
  have hsize (rest : List UInt8) : skip 1 ([12] ++ rest) = some rest :=
    skip_append List.length_singleton rest
  have hending (rest : List UInt8) := readBytes_append
    (show [head.reserved, 0, 0, 0].length = 4 from rfl) rest
  simp only [PowHead.encode, List.append_assoc, readPowHead, Option.bind_eq_bind, hstart,
    Option.bind_some, readLe_append (hword _), hsize, readBytes_append h.extranonce_length,
    readCString_append h.noNul, hending, UInt32.ofNat_toNat]
  rfl

end ChirpGateway
