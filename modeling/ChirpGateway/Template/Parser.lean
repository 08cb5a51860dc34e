import ChirpGateway.Lib.Hex
import ChirpGateway.Lib.Wire
import ChirpGateway.Rpc.Json
import ChirpGateway.Template.Block
import Mathlib.Data.List.Forall2
import Mathlib.Data.UInt

/-!
# Reading a template

`datum_gbt_parser` (`datum_blocktemplates.c:156-519`) makes a template of the
node's reply to `getblocktemplate`. A reader that meets something it does not
accept is `none`, as the parser then returns `NULL`.
-/

namespace ChirpGateway

open Bytes Wire

/-- The settings the parser looks at. -/
structure ParserConfig where
  miningPowAlgorithm : List UInt8
  miningAllowHasherTimeRolling : Bool

/-- The settings of a gateway for the hash function of header version 2. -/
def blake2bParser : ParserConfig where
  miningPowAlgorithm := ascii "blake2b"
  miningAllowHasherTimeRolling := false

/-! ## Hexadecimal fields -/

/-- `datum_hex_nibble` finds a value. -/
def isHexDigit (ch : UInt8) : Bool :=
  (Hex.digitValue 97 ch).isSome || (Hex.digitValue 65 ch).isSome

/-- `datum_pow_decode_hex_exact` into memory that was zero: what was decoded in
    front of a character that is no digit stays. -/
def decodeHexExact : (size : Nat) → List UInt8 → List UInt8
  | 0, _ => []
  | size + 1, hi :: lo :: rest =>
    if isHexDigit hi && isHexDigit lo then Hex.lookup hi lo :: decodeHexExact size rest
    else List.replicate (size + 1) 0
  | size + 1, _ => List.replicate (size + 1) 0

/-- `datum_gbt_try_hex_field`. -/
def tryHexField (gbt : Json) (key : String) (size : Nat) : List UInt8 :=
  match gbt.stringAt key with
  | some text =>
    if text.length = 2 * size then decodeHexExact size text else List.replicate size 0
  | none => List.replicate size 0

theorem length_decodeHexExact (size : Nat) (text : List UInt8) :
    (decodeHexExact size text).length = size := by
  induction size generalizing text with
  | zero => rfl
  | succ size ih =>
    rcases text with _ | ⟨hi, _ | ⟨lo, rest⟩⟩
    · simp [decodeHexExact]
    · simp [decodeHexExact]
    · rw [decodeHexExact]
      split
      · rw [List.length_cons, ih]
      · exact List.length_replicate

@[simp] theorem length_tryHexField (gbt : Json) (key : String) (size : Nat) :
    (tryHexField gbt key size).length = size := by
  unfold tryHexField
  cases gbt.stringAt key with
  | none => exact List.length_replicate
  | some text =>
    dsimp only
    split
    · exact length_decodeHexExact size text
    · exact List.length_replicate

/-- A text of 64 characters is 32 bytes, and `hex_to_bin_le` has the last first. -/
def hexToHash (text : List UInt8) (hlen : text.length = 64) : Hash32 where
  bytes := (Hex.decode text).reverse
  length_eq := by rw [List.length_reverse, Hex.length_decode, hlen]

/-! ## The header -/

/-- The fields of the template that only a header of version 2 has. -/
structure HeaderFields where
  headerVersion : UInt32
  headerTransactionCount : UInt32
  headerFlags : UInt8
  headerTimeOffset : UInt32
  xorKeyMaskClearBits : UInt8
  xorKey : List UInt8
  mergeMiningRhs : List UInt8
  xorKey_length : xorKey.length = 16
  mergeMiningRhs_length : mergeMiningRhs.length = 32

theorem length_blankKey : (List.replicate 16 (0 : UInt8)).length = 16 := List.length_replicate

/-- `datum_template_clear_header_fields`. -/
def HeaderFields.cleared : HeaderFields where
  headerVersion := 0
  headerTransactionCount := 0
  headerFlags := 0
  headerTimeOffset := 0
  xorKeyMaskClearBits := 0
  xorKey := List.replicate 16 0
  mergeMiningRhs := List.replicate 32 0
  xorKey_length := length_blankKey
  mergeMiningRhs_length := length_blank

/-- `have_blake2b` and `have_sha256d`. -/
def powAlgorithms (gbt : Json) : Option (Bool × Bool) :=
  match gbt.objectGet "powalgorithm" with
  | none => some (false, false)
  | some (.string name) =>
    if name = ascii "blake2b" then some (true, false)
    else if name = ascii "sha256d" then some (false, true)
    else none
  | some _ => none

/-- `header_version`, which `blake2b` makes 2 and `sha256d` keeps below. -/
def headerVersionOf (gbt : Json) (haveBlake2b haveSha256d : Bool) : Option UInt32 := do
  let named : UInt32 := if haveBlake2b then 2 else 0
  let version ←
    match gbt.objectGet "header_version" with
    | none => some named
    | some (.integer value) => if value = 0 then none else some (UInt32.ofInt value)
    | some _ => none
  if haveSha256d && version ≥ 2 then none
  else some (if haveBlake2b then 2 else version)

/-- `header_flags`, with only profile 0 accepted. -/
def headerFlagsOf (gbt : Json) : Option UInt8 :=
  match (gbt.objectGet "h1_flags").or (gbt.objectGet "header_flags") with
  | some (.integer flags) =>
    if 0 ≤ flags ∧ flags ≤ 255 then
      if flags % 4 ≠ 0 then none else some (UInt8.ofNat flags.toNat)
    else
      some 0
  | _ => some 0

/-- An integer field that counts only within bounds. -/
def integerWithin (gbt : Json) (key : String) (bound : Int) : Nat :=
  match gbt.objectGet key with
  | some (.integer value) => if 0 ≤ value ∧ value ≤ bound then value.toNat else 0
  | _ => 0

/-- `transaction_count`, cut to 32 bits. -/
def transactionCountOf (gbt : Json) : UInt32 :=
  match gbt.objectGet "transaction_count" with
  | some (.integer count) => if 0 ≤ count then UInt32.ofInt count else 0
  | _ => 0

/-- `datum_gbt_parse_header_fields`. -/
def parseHeaderFields (cfg : ParserConfig) (gbt : Json) : Option HeaderFields := do
  let (haveBlake2b, haveSha256d) ← powAlgorithms gbt
  let version ← headerVersionOf gbt haveBlake2b haveSha256d
  if version = 0 then
    if haveSha256d then some .cleared else none
  else do
    let flags ← headerFlagsOf gbt
    some
      { headerVersion := version
        headerTransactionCount := transactionCountOf gbt
        headerFlags := if cfg.miningAllowHasherTimeRolling then blake2bUseTimeOffset else flags
        headerTimeOffset := UInt32.ofNat (integerWithin gbt "time_offset" (2 ^ 32 - 1))
        xorKeyMaskClearBits := UInt8.ofNat (integerWithin gbt "xor_key_mask_clear_bits" 255)
        xorKey := tryHexField gbt "xor_key" 16
        mergeMiningRhs := tryHexField gbt "merge_mining_rhs" 32
        xorKey_length := length_tryHexField gbt _ _
        mergeMiningRhs_length := length_tryHexField gbt _ _ }

/-- The reply speaks of its header itself. -/
def namesHeader (gbt : Json) : Bool :=
  (gbt.objectGet "powalgorithm").isSome || (gbt.objectGet "header_version").isSome

/-- A rule of the reply that asks for the hash function. -/
def rulesWantBlake2b (gbt : Json) : Bool :=
  ((gbt.arrayAt "rules").getD []).any fun rule =>
    rule.stringValue = some (ascii "blake2b") || rule.stringValue = some (ascii "!blake2b")

/-- `blake2b_headline` of `coinbaseaux`. -/
def headlineMember (gbt : Json) : Option Json :=
  (gbt.objectGet "coinbaseaux").bind fun aux => aux.objectGet "blake2b_headline"

/-- The top bit of the version. -/
def versionMarked (version : UInt32) : Bool :=
  version &&& 0x80000000 ≠ 0

/-- `want_blake2b`. -/
def wantBlake2b (cfg : ParserConfig) (gbt : Json) (version : UInt32) : Bool :=
  rulesWantBlake2b gbt || (headlineMember gbt).isSome || versionMarked version ||
    cfg.miningPowAlgorithm = ascii "blake2b"

/-- The fields of a reply that does not speak of its header. -/
def impliedHeader (cfg : ParserConfig) (gbt : Json) (version : UInt32) : HeaderFields :=
  if wantBlake2b cfg gbt version && cfg.miningPowAlgorithm ≠ ascii "sha256d" then
    { HeaderFields.cleared with
      headerVersion := 2
      headerFlags := if cfg.miningAllowHasherTimeRolling then blake2bUseTimeOffset else 0 }
  else
    .cleared

/-- The fields of the header and the version, whose top bit is a mark where the
    reply does not speak of its header. -/
def gbtHeader (cfg : ParserConfig) (gbt : Json) (version : UInt32) :
    Option (HeaderFields × UInt32) :=
  if namesHeader gbt then
    (parseHeaderFields cfg gbt).map fun fields => (fields, version)
  else
    some (impliedHeader cfg gbt version,
      if versionMarked version then version &&& 0x7fffffff else version)

theorem headerTransactionCount_impliedHeader (cfg : ParserConfig) (gbt : Json)
    (version : UInt32) : (impliedHeader cfg gbt version).headerTransactionCount = 0 := by
  unfold impliedHeader
  split
  · rfl
  · rfl

/-- `blake2b_headline`, at most a hundred bytes. -/
def gbtHeadline (gbt : Json) (headerVersion : UInt32) : List UInt8 :=
  match headlineMember gbt with
  | some (.string text) =>
    if headerVersion ≥ 2 ∧ 2 ≤ text.length ∧ text.length % 2 = 0 ∧
      text.length / 2 ≤ 100 then
      Hex.decode text
    else
      []
  | _ => []

theorem length_gbtHeadline (gbt : Json) (headerVersion : UInt32) :
    (gbtHeadline gbt headerVersion).length ≤ 100 := by
  unfold gbtHeadline
  split
  · next text _ =>
    split
    · next h =>
      rw [Hex.length_decode]
      omega
    · exact Nat.zero_le _
  · exact Nat.zero_le _

/-! ## The fields that must be there -/

/-- The numbers of the reply, none of them zero. -/
structure GbtNumbers where
  height : UInt32
  coinbasevalue : UInt64
  mintime : UInt64
  sigoplimit : UInt32
  curtime : UInt64
  sizelimit : UInt64
  weightlimit : UInt64
  version : UInt32
  coinbasevalue_ne : coinbasevalue ≠ 0

/-- `json_integer_value` of a member, which must not be zero once it is stored. -/
def storedNonzero {α : Type} [DecidableEq α] [Zero α] (stored : Int → α) (gbt : Json)
    (key : String) : Option { value : α // value ≠ 0 } :=
  if h : stored (gbt.integerAt key) ≠ 0 then some ⟨stored (gbt.integerAt key), h⟩ else none

def gbtNumbers (gbt : Json) : Option GbtNumbers := do
  let height ← storedNonzero UInt32.ofInt gbt "height"
  let coinbasevalue ← storedNonzero UInt64.ofInt gbt "coinbasevalue"
  let mintime ← storedNonzero UInt64.ofInt gbt "mintime"
  let sigoplimit ← storedNonzero UInt32.ofInt gbt "sigoplimit"
  let curtime ← storedNonzero UInt64.ofInt gbt "curtime"
  let sizelimit ← storedNonzero UInt64.ofInt gbt "sizelimit"
  let weightlimit ← storedNonzero UInt64.ofInt gbt "weightlimit"
  let version ← storedNonzero UInt32.ofInt gbt "version"
  some
    { height := height.val
      coinbasevalue := coinbasevalue.val
      mintime := mintime.val
      sigoplimit := sigoplimit.val
      curtime := curtime.val
      sizelimit := sizelimit.val
      weightlimit := weightlimit.val
      version := version.val
      coinbasevalue_ne := coinbasevalue.property }

/-- A text member of a length the parser accepts. -/
def textWithin (gbt : Json) (key : String) (low high : Nat) :
    Option { text : List UInt8 // low ≤ text.length ∧ text.length ≤ high } :=
  (gbt.stringAt key).bind fun text =>
    if h : low ≤ text.length ∧ text.length ≤ high then some ⟨text, h⟩ else none

/-- The texts of the reply. -/
structure GbtTexts where
  bits : List UInt8
  previousblockhash : List UInt8
  target : List UInt8
  defaultWitnessCommitment : List UInt8
  previousblockhash_length : previousblockhash.length = 64
  witnessCommitment_length :
    38 ≤ defaultWitnessCommitment.length ∧ defaultWitnessCommitment.length ≤ 95

def gbtTexts (gbt : Json) : Option GbtTexts := do
  let bits ← textWithin gbt "bits" 8 8
  let previousblockhash ← textWithin gbt "previousblockhash" 64 64
  let target ← textWithin gbt "target" 64 64
  let commitment ← textWithin gbt "default_witness_commitment" 38 95
  some
    { bits := bits.val
      previousblockhash := previousblockhash.val
      target := target.val
      defaultWitnessCommitment := commitment.val
      previousblockhash_length :=
        Nat.le_antisymm previousblockhash.property.2 previousblockhash.property.1
      witnessCommitment_length := commitment.property }

/-- `bits_uint`: the digits are written most significant first. -/
def GbtTexts.bitsUint (texts : GbtTexts) : UInt32 :=
  UInt32.ofNat (leValue (Hex.decode texts.bits).reverse)

/-! ## The transactions -/

/-- `T_DATUM_TEMPLATE_TXN`. -/
structure GbtTxn where
  indexRaw : UInt16
  txidBin : Hash32
  hashBin : Hash32
  feeSats : UInt64
  sigops : UInt32
  weight : UInt32
  data : List UInt8

/-- The most transactions the parser takes. -/
def maxTemplateTxns : Nat := 16383

/-- `sizeof(T_DATUM_TEMPLATE_TXN)`. -/
def templateTxnBytes : Nat := 256

/-- `local_data_size`: the table of transactions, and room for their data. -/
def localDataSize : Nat := templateTxnBytes * 16384 + 4000000 * 3 + 2000000

/-- A transaction of the reply. What is no object has no members. -/
def parseTxn (i : Nat) (tx : Json) : Option GbtTxn := do
  let txid ← textWithin tx "txid" 64 64
  let hash ← textWithin tx "hash" 64 64
  let data ← tx.stringAt "data"
  some
    { indexRaw := UInt16.ofNat (i + 1)
      txidBin := hexToHash txid.val (Nat.le_antisymm txid.property.2 txid.property.1)
      hashBin := hexToHash hash.val (Nat.le_antisymm hash.property.2 hash.property.1)
      feeSats := UInt64.ofInt (tx.integerAt "fee")
      sigops := UInt32.ofInt (tx.integerAt "sigops")
      weight := UInt32.ofInt (tx.integerAt "weight")
      data := (Hex.decode data).take (data.length / 2) }

/-- The bytes a transaction takes up in `local_data`, as they are and in hexadecimal. -/
def GbtTxn.room (txn : GbtTxn) : Nat :=
  (txn.data.length + 1) + (2 * txn.data.length + 2)

/-- The loop over the transactions, `offset` being `txn_data_offset`. -/
def parseTxns : (i offset : Nat) → List Json → Option (List GbtTxn)
  | _, _, [] => some []
  | i, offset, tx :: rest => do
    let txn ← parseTxn i tx
    if offset + txn.room ≥ localDataSize then none
    else do
      let txns ← parseTxns (i + 1) (offset + txn.room) rest
      some (txn :: txns)

theorem parseTxns_cons_eq_some_iff {i offset : Nat} {tx : Json} {rest : List Json}
    {txns : List GbtTxn} :
    parseTxns i offset (tx :: rest) = some txns ↔
      ∃ txn later, parseTxn i tx = some txn ∧ offset + txn.room < localDataSize ∧
        parseTxns (i + 1) (offset + txn.room) rest = some later ∧ txns = txn :: later := by
  rw [parseTxns]
  constructor
  · intro h
    obtain ⟨txn, htxn, h⟩ := Option.bind_eq_some_iff.mp h
    by_cases hroom : offset + txn.room ≥ localDataSize
    · rw [if_pos hroom] at h
      cases h
    · rw [if_neg hroom] at h
      obtain ⟨later, hlater, h⟩ := Option.bind_eq_some_iff.mp h
      exact ⟨txn, later, htxn, Nat.lt_of_not_le hroom, hlater, (Option.some.inj h).symm⟩
  · rintro ⟨txn, later, htxn, hroom, hlater, rfl⟩
    rw [htxn, Option.bind_eq_bind, Option.bind_some, if_neg (Nat.not_le.mpr hroom), hlater]
    rfl

/-- What is read is read entry by entry. -/
theorem forall₂_parseTxns {i offset : Nat} {txs : List Json} {txns : List GbtTxn}
    (h : parseTxns i offset txs = some txns) :
    List.Forall₂ (fun tx txn => ∃ i, parseTxn i tx = some txn) txs txns := by
  induction txs generalizing i offset txns with
  | nil =>
    cases h
    exact .nil
  | cons tx rest ih =>
    obtain ⟨txn, later, htxn, _, hlater, rfl⟩ := parseTxns_cons_eq_some_iff.mp h
    exact .cons ⟨i, htxn⟩ (ih hlater)

/-- What is accepted fits `local_data`. -/
theorem room_of_parseTxns {i offset : Nat} {txs : List Json} {txns : List GbtTxn}
    (hoffset : offset ≤ localDataSize) (h : parseTxns i offset txs = some txns) :
    offset + (txns.map GbtTxn.room).sum ≤ localDataSize := by
  induction txs generalizing i offset txns with
  | nil =>
    cases h
    exact hoffset
  | cons tx rest ih =>
    obtain ⟨txn, later, _, hroom, hlater, rfl⟩ := parseTxns_cons_eq_some_iff.mp h
    have hrest := ih hroom.le hlater
    rw [List.map_cons, List.sum_cons]
    omega

theorem length_of_parseTxns {i offset : Nat} {txs : List Json} {txns : List GbtTxn}
    (h : parseTxns i offset txs = some txns) : txns.length = txs.length :=
  (forall₂_parseTxns h).length_eq.symm

/-- The raw bytes are less than a third of the room. -/
theorem dataLength_le_room (txns : List GbtTxn) :
    3 * (txns.map fun txn => txn.data.length).sum ≤ (txns.map GbtTxn.room).sum := by
  induction txns with
  | nil => rfl
  | cons txn rest ih =>
    rw [List.map_cons, List.sum_cons, List.map_cons, List.sum_cons, GbtTxn.room]
    omega

/-! ## The parser -/

/-- `txn_data_offset` starts behind a table for all entries, also those that are
    cut off. -/
def readTxns (txs : List Json) : Option (List GbtTxn) :=
  parseTxns 0 (templateTxnBytes * txs.length) (txs.take maxTemplateTxns)

/-- The first transaction is refused where the table alone takes all the room. -/
theorem table_le_of_readTxns {txs : List Json} {txns : List GbtTxn}
    (h : readTxns txs = some txns) : templateTxnBytes * txs.length ≤ localDataSize := by
  cases txs with
  | nil => exact Nat.zero_le _
  | cons tx rest =>
    obtain ⟨txn, _, _, hroom, _, _⟩ := parseTxns_cons_eq_some_iff.mp h
    omega

theorem length_of_readTxns {txs : List Json} {txns : List GbtTxn}
    (h : readTxns txs = some txns) : txns.length = min maxTemplateTxns txs.length := by
  unfold readTxns at h
  have hlen := length_of_parseTxns h
  rwa [List.length_take] at hlen

theorem dataLength_of_readTxns {txs : List Json} {txns : List GbtTxn}
    (h : readTxns txs = some txns) : (txns.map fun txn => txn.data.length).sum < 2 ^ 23 := by
  have htable := table_le_of_readTxns h
  unfold readTxns at h
  have hroom := room_of_parseTxns htable h
  have hdata := dataLength_le_room txns
  have hsize : localDataSize = 18194304 := rfl
  rw [hsize] at hroom
  omega

/-- Transactions that were read from a reply. -/
structure ReadTxns (gbt : Json) where
  txs : List Json
  txns : List GbtTxn
  txs_eq : gbt.arrayAt "transactions" = some txs
  txns_eq : readTxns txs = some txns

def gbtTxnsOf (gbt : Json) : Option (ReadTxns gbt) :=
  match htxs : gbt.arrayAt "transactions" with
  | none => none
  | some txs =>
    match htxns : readTxns txs with
    | none => none
    | some txns => some ⟨txs, txns, htxs, htxns⟩

theorem gbtTxnsOf_of_readTxns {gbt : Json} {txs : List Json} {txns : List GbtTxn}
    (htxs : gbt.arrayAt "transactions" = some txs) (htxns : readTxns txs = some txns) :
    ∃ read, gbtTxnsOf gbt = some read := by
  unfold gbtTxnsOf
  split
  · next hnone =>
    rw [hnone] at htxs
    cases htxs
  · next found hfound =>
    obtain rfl : found = txs := Option.some.inj (hfound.symm.trans htxs)
    split
    · next hnone =>
      rw [hnone] at htxns
      cases htxns
    · exact ⟨_, rfl⟩

/-- A parsed template with its transactions as they were read. -/
structure GbtTemplate extends BlockTemplate where
  sigoplimit : UInt32
  gbtTxns : List GbtTxn
  txnTotalSigops : UInt32
  txns_eq : toBlockTemplate.txns =
    gbtTxns.map fun txn => { txidBin := txn.txidBin, data := txn.data }

/-- The template made of what was read. -/
def gbtTemplate {gbt : Json} (numbers : GbtNumbers) (header : HeaderFields) (version : UInt32)
    (texts : GbtTexts) (read : ReadTxns gbt) : GbtTemplate where
  height := numbers.height
  coinbasevalue := numbers.coinbasevalue
  sizelimit := numbers.sizelimit
  weightlimit := numbers.weightlimit
  previousblockhashBin := (hexToHash texts.previousblockhash texts.previousblockhash_length).bytes
  defaultWitnessCommitment := texts.defaultWitnessCommitment
  headerVersion := header.headerVersion
  blake2bHeadline := gbtHeadline gbt header.headerVersion
  txnTotalWeight := read.txns.foldl (fun total txn => total + txn.weight) 0
  txnTotalSize := UInt32.ofNat (read.txns.map fun txn => txn.data.length).sum
  coinbasevalue_ne := numbers.coinbasevalue_ne
  witnessCommitment_length := texts.witnessCommitment_length
  headline_length := length_gbtHeadline gbt header.headerVersion
  txnTotalSize_lt := by
    have hdata := dataLength_of_readTxns read.txns_eq
    rw [UInt32.toNat_ofNat_of_lt' (Nat.lt_trans hdata (by decide))]
    omega
  version := version
  bitsUint := texts.bitsUint
  curtime := numbers.curtime
  mintime := numbers.mintime
  headerTransactionCount := header.headerTransactionCount
  headerFlags := header.headerFlags
  headerTimeOffset := header.headerTimeOffset
  xorKeyMaskClearBits := header.xorKeyMaskClearBits
  xorKey := header.xorKey
  mergeMiningRhs := header.mergeMiningRhs
  txns := read.txns.map fun txn => { txidBin := txn.txidBin, data := txn.data }
  prevhash_length := (hexToHash _ texts.previousblockhash_length).length_eq
  xorKey_length := header.xorKey_length
  mergeMiningRhs_length := header.mergeMiningRhs_length
  txns_length_le := by
    rw [List.length_map, length_of_readTxns read.txns_eq]
    exact Nat.min_le_left _ _
  txnTotalSize_eq := by
    have hdata := dataLength_of_readTxns read.txns_eq
    rw [UInt32.toNat_ofNat_of_lt' (Nat.lt_trans hdata (by decide)), List.map_map]
    rfl
  sigoplimit := numbers.sigoplimit
  gbtTxns := read.txns
  txnTotalSigops := read.txns.foldl (fun total txn => total + txn.sigops) 0
  txns_eq := rfl

/-- `datum_gbt_parser`. Bits of a size over 32, whose target is stored over the fields
    behind it, are left to `TargetSound`: the fields here are as they were read. -/
def gbtParser (cfg : ParserConfig) (gbt : Json) : Option GbtTemplate := do
  let numbers ← gbtNumbers gbt
  let (header, version) ← gbtHeader cfg gbt numbers.version
  let texts ← gbtTexts gbt
  let read ← gbtTxnsOf gbt
  some (gbtTemplate numbers header version texts read)

/-- What an accepted reply was read as. -/
theorem gbtParser_eq_some_iff {cfg : ParserConfig} {gbt : Json} {tdata : GbtTemplate} :
    gbtParser cfg gbt = some tdata ↔
      ∃ numbers header version texts read, gbtNumbers gbt = some numbers ∧
        gbtHeader cfg gbt numbers.version = some (header, version) ∧
        gbtTexts gbt = some texts ∧ gbtTxnsOf gbt = some read ∧
        tdata = gbtTemplate numbers header version texts read := by
  unfold gbtParser
  constructor
  · intro h
    obtain ⟨numbers, hnumbers, h⟩ := Option.bind_eq_some_iff.mp h
    obtain ⟨⟨header, version⟩, hheader, h⟩ := Option.bind_eq_some_iff.mp h
    obtain ⟨texts, htexts, h⟩ := Option.bind_eq_some_iff.mp h
    obtain ⟨read, hread, h⟩ := Option.bind_eq_some_iff.mp h
    exact ⟨numbers, header, version, texts, read, hnumbers, hheader, htexts, hread,
      (Option.some.inj h).symm⟩
  · rintro ⟨numbers, header, version, texts, read, hnumbers, hheader, htexts, hread, rfl⟩
    rw [hnumbers, Option.bind_eq_bind, Option.bind_some, hheader, Option.bind_eq_bind,
      Option.bind_some]
    dsimp only
    rw [htexts, Option.bind_eq_bind, Option.bind_some, hread]
    rfl

end ChirpGateway
