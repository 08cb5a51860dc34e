import ChirpGateway.Lib.Writes
import ChirpGateway.Template.Target
import Mathlib.Algebra.Order.BigOperators.Group.List
import Mathlib.Algebra.Order.Ring.Nat

/-!
# The memory of a template

The loop of `datum_gbt_parser` over the transactions, write by write
(`datum_blocktemplates.c:439-516`). The table of records stands at the start of
`local_data`, and the two forms of each transaction behind it. `txn_data_offset` has 32
bits. Places are counted from `local_data`, which is at `base`.
-/

namespace ChirpGateway

open Wire Writes

/-! ## A transaction -/

/-- The texts of a transaction; one that is not there has no length. -/
def txidText (tx : Json) : List UInt8 := (tx.stringAt "txid").getD []

def hashText (tx : Json) : List UInt8 := (tx.stringAt "hash").getD []

def dataText (tx : Json) : List UInt8 := (tx.stringAt "data").getD []

section Record

variable (i : Nat) (tx : Json)

/-- The place of a record in `txns`. -/
def recordPlace : Nat := templateTxnBytes * i

def indexWrites : List (Write UInt8) := [⟨recordPlace i, leBytes 2 (i + 1)⟩]

/-- `txid_hex` and `txid_bin`. -/
def txidWrites : List (Write UInt8) :=
  [⟨recordPlace i + 2, txidText tx ++ [0]⟩,
    ⟨recordPlace i + 74, (Hex.decode (txidText tx)).reverse⟩]

/-- `hash_hex` and `hash_bin`. -/
def hashWrites : List (Write UInt8) :=
  [⟨recordPlace i + 106, hashText tx ++ [0]⟩,
    ⟨recordPlace i + 178, (Hex.decode (hashText tx)).reverse⟩]

/-- `fee_sats`, `sigops` and `weight`. -/
def numberWrites : List (Write UInt8) :=
  [⟨recordPlace i + 224, leBytes 8 (UInt64.ofInt (tx.integerAt "fee")).toNat⟩,
    ⟨recordPlace i + 232, leBytes 4 (UInt32.ofInt (tx.integerAt "sigops")).toNat⟩,
    ⟨recordPlace i + 216, leBytes 4 (UInt32.ofInt (tx.integerAt "weight")).toNat⟩]

/-- `size`, `txn_data_binary` and `txn_data_hex`. -/
def placeWrites (base size binary hex : Nat) : List (Write UInt8) :=
  [⟨recordPlace i + 212, leBytes 4 size⟩, ⟨recordPlace i + 240, leBytes 8 (base + binary)⟩,
    ⟨recordPlace i + 248, leBytes 8 (base + hex)⟩]

end Record

/-- A transaction with its number and the places of its two forms. -/
structure PlacedTxn where
  index : Nat
  tx : Json
  binary : Nat
  hex : Nat

namespace PlacedTxn

variable (p : PlacedTxn)

/-- The record of the transaction. -/
def recordWrites (base : Nat) : List (Write UInt8) :=
  indexWrites p.index ++ txidWrites p.index p.tx ++ hashWrites p.index p.tx ++
    numberWrites p.index p.tx ++
    placeWrites p.index base ((dataText p.tx).length / 2) p.binary p.hex

/-- `txn_data_hex`, with its terminator. -/
def hexWrite : Write UInt8 := ⟨p.hex, dataText p.tx ++ [0]⟩

/-- `txn_data_binary`. -/
def binaryWrite : Write UInt8 :=
  ⟨p.binary, (Hex.decode (dataText p.tx)).take ((dataText p.tx).length / 2)⟩

def writes (base : Nat) : List (Write UInt8) :=
  p.recordWrites base ++ [p.hexWrite, p.binaryWrite]

end PlacedTxn

/-- The writes of one turn of the loop, and what it leaves unless it returns `NULL`: the
    transaction and `txn_data_offset`. -/
structure TxnTurn where
  writes : List (Write UInt8)
  next : Option (PlacedTxn × Nat)

/-- One turn of the loop. -/
def txnTurn (base i offset : Nat) (tx : Json) : TxnTurn :=
  if !tx.isObject then ⟨[], none⟩
  else if (txidText tx).length ≠ 64 then ⟨indexWrites i, none⟩
  else if (hashText tx).length ≠ 64 then ⟨indexWrites i ++ txidWrites i tx, none⟩
  else
    let written := indexWrites i ++ txidWrites i tx ++ hashWrites i tx ++ numberWrites i tx
    match tx.stringAt "data" with
    | none => ⟨written, none⟩
    | some data =>
      let size := data.length / 2 % 2 ^ 32
      let hex := (offset + size + 1) % 2 ^ 32
      let next := (hex + 2 * size + 2) % 2 ^ 32
      let placed : PlacedTxn := ⟨i, tx, offset, hex⟩
      let written := written ++ placeWrites i base size offset hex
      if next ≥ localDataSize then ⟨written, none⟩
      else ⟨written ++ [placed.hexWrite, placed.binaryWrite], some (placed, next)⟩

/-- The writes of the loop, and the transactions unless the parser returns `NULL`. -/
def txnLoop (base : Nat) : (i offset : Nat) → List Json →
    List (Write UInt8) × Option (List PlacedTxn)
  | _, _, [] => ([], some [])
  | i, offset, tx :: rest =>
    let turn := txnTurn base i offset tx
    match turn.next with
    | none => (turn.writes, none)
    | some (placed, next) =>
      let later := txnLoop base (i + 1) next rest
      (turn.writes ++ later.1, later.2.map (placed :: ·))

/-- The loop over the transactions of a reply. -/
def arenaLoop (base : Nat) (txs : List Json) : List (Write UInt8) × Option (List PlacedTxn) :=
  txnLoop base 0 (templateTxnBytes * txs.length % 2 ^ 32) (txs.take maxTemplateTxns)

/-- What the parser has to read before it stores the target. -/
def textsReached (cfg : ParserConfig) (gbt : Json) : Option GbtTexts := do
  let numbers ← gbtNumbers gbt
  let _ ← gbtHeader cfg gbt numbers.version
  gbtTexts gbt

/-- What the parser has to read before it comes to the transactions. -/
def transactionsReached (cfg : ParserConfig) (gbt : Json) : Option (List Json) := do
  let _ ← textsReached cfg gbt
  gbt.arrayAt "transactions"

/-- What is written for a reply: the target, with its places counted from `block_target`,
    and the transactions, with theirs counted from `local_data`. -/
structure ArenaRun where
  target : List (Write UInt8)
  writes : List (Write UInt8)
  placed : Option (List PlacedTxn)

/-- What `datum_gbt_parser` writes by `nbits_to_target` and to `local_data`. Bits of a size
    over 32 store the target over the fields behind it, `txns`, `local_data` and
    `local_data_size` among them: what is written after that is `spoiled`, anything. -/
def arenaOf (cfg : ParserConfig) (base : Nat)
    (spoiled : List (Write UInt8) × Option (List PlacedTxn)) (gbt : Json) : ArenaRun :=
  match textsReached cfg gbt with
  | none => ⟨[], [], none⟩
  | some texts =>
    let target := nbitsToTarget texts.bitsUint
    if 32 < nbitsExponent texts.bitsUint then ⟨target, spoiled.1, spoiled.2⟩
    else
      match gbt.arrayAt "transactions" with
      | none => ⟨target, [], none⟩
      | some txs =>
        let run := arenaLoop base txs
        ⟨target, run.1, run.2⟩

/-! ## What a turn writes -/

/-- A transaction the parser takes, if there is room. -/
structure Complete (tx : Json) : Prop where
  isObject : tx.isObject = true
  txid : (txidText tx).length = 64
  hash : (hashText tx).length = 64
  data : tx.stringAt "data" = some (dataText tx)

theorem textWithin_eq_some_iff {tx : Json} {key : String} :
    (textWithin tx key 64 64).isSome = true ↔ ((tx.stringAt key).getD []).length = 64 := by
  unfold textWithin
  cases tx.stringAt key with
  | none => simp
  | some text =>
    simp only [Option.bind_some, Option.getD_some]
    split_ifs with hlength
    · simp
      omega
    · simp
      omega

theorem parseTxn_of_complete (i : Nat) {tx : Json} (h : Complete tx) :
    ∃ txn, parseTxn i tx = some txn ∧ txn.room = 3 * ((dataText tx).length / 2) + 3 := by
  obtain ⟨txid, htxid⟩ := Option.isSome_iff_exists.mp (textWithin_eq_some_iff.mpr h.txid)
  obtain ⟨hash, hhash⟩ := Option.isSome_iff_exists.mp (textWithin_eq_some_iff.mpr h.hash)
  unfold parseTxn
  rw [htxid, hhash, h.data]
  refine ⟨_, rfl, ?_⟩
  simp only [GbtTxn.room, List.length_take, Hex.length_decode]
  omega

theorem complete_of_parseTxn {i : Nat} {tx : Json} {txn : GbtTxn} (h : parseTxn i tx = some txn) :
    Complete tx := by
  unfold parseTxn at h
  obtain ⟨txid, htxid, h⟩ := Option.bind_eq_some_iff.mp h
  obtain ⟨hash, hhash, h⟩ := Option.bind_eq_some_iff.mp h
  obtain ⟨data, hdata, -⟩ := Option.bind_eq_some_iff.mp h
  refine ⟨?_, textWithin_eq_some_iff.mp (Option.isSome_of_eq_some htxid),
    textWithin_eq_some_iff.mp (Option.isSome_of_eq_some hhash), ?_⟩
  · obtain ⟨member, hmember, -⟩ := Option.bind_eq_some_iff.mp hdata
    obtain ⟨members, rfl⟩ := Json.isObject_of_objectGet hmember
    rfl
  · rw [dataText, hdata]
    rfl

theorem recordWrites_within {p : PlacedTxn} (h : Complete p.tx) (base : Nat) :
    ∀ w ∈ p.recordWrites base, w.Within (recordPlace p.index) (recordPlace (p.index + 1)) := by
  simp [PlacedTxn.recordWrites, indexWrites, txidWrites, hashWrites, numberWrites, placeWrites,
    Write.Within, Write.stop, Hex.length_decode, h.txid, h.hash, recordPlace, templateTxnBytes]
  omega

theorem recordWrites_apart {p : PlacedTxn} (h : Complete p.tx) (base : Nat) :
    (p.recordWrites base).Pairwise Write.Apart := by
  simp [PlacedTxn.recordWrites, indexWrites, txidWrites, hashWrites, numberWrites, placeWrites,
    Write.Apart, Write.stop, Hex.length_decode, h.txid, h.hash]

/-- A transaction that is not complete ends the loop in its record. -/
theorem txnTurn_of_not_complete (base i offset : Nat) {tx : Json} (h : ¬ Complete tx) :
    (txnTurn base i offset tx).next = none ∧
      (∀ w ∈ (txnTurn base i offset tx).writes,
        w.Within (recordPlace i) (recordPlace (i + 1))) ∧
      (txnTurn base i offset tx).writes.Pairwise Write.Apart := by
  unfold txnTurn
  cases hobject : tx.isObject with
  | false => simp
  | true =>
    rw [Bool.not_true, if_neg Bool.false_ne_true]
    split_ifs with htxid hhash
    · simp [indexWrites, Write.Within, Write.stop, recordPlace, templateTxnBytes]
      omega
    · have htxid : (txidText tx).length = 64 := not_not.mp htxid
      simp [indexWrites, txidWrites, Write.Within, Write.Apart, Write.stop, Hex.length_decode,
        htxid, recordPlace, templateTxnBytes]
      omega
    · have htxid : (txidText tx).length = 64 := not_not.mp htxid
      have hhash : (hashText tx).length = 64 := not_not.mp hhash
      cases hdata : tx.stringAt "data" with
      | none =>
        simp [indexWrites, txidWrites, hashWrites, numberWrites, Write.Within, Write.Apart,
          Write.stop, Hex.length_decode, htxid, hhash, recordPlace, templateTxnBytes]
        omega
      | some data =>
        refine absurd ⟨hobject, htxid, hhash, ?_⟩ h
        rw [dataText, hdata]
        rfl

/-- The place a complete transaction gets. -/
def placedAt (i offset : Nat) (tx : Json) : PlacedTxn :=
  ⟨i, tx, offset, (offset + (dataText tx).length / 2 + 1) % 2 ^ 32⟩

/-- The place behind it, before it is cut to 32 bits. -/
def placedStop (offset : Nat) (tx : Json) : Nat :=
  offset + (3 * ((dataText tx).length / 2) + 3)

theorem txnTurn_of_complete (base i offset : Nat) {tx : Json} (h : Complete tx)
    (hdata : (dataText tx).length < 2 ^ 32) :
    txnTurn base i offset tx =
      if placedStop offset tx % 2 ^ 32 ≥ localDataSize then
        ⟨(placedAt i offset tx).recordWrites base, none⟩
      else ⟨(placedAt i offset tx).writes base,
        some (placedAt i offset tx, placedStop offset tx % 2 ^ 32)⟩ := by
  have hsize : (dataText tx).length / 2 % 2 ^ 32 = (dataText tx).length / 2 :=
    Nat.mod_eq_of_lt (by omega)
  have hstop : ((offset + (dataText tx).length / 2 + 1) % 2 ^ 32 +
      2 * ((dataText tx).length / 2) + 2) % 2 ^ 32 = placedStop offset tx % 2 ^ 32 := by
    unfold placedStop
    omega
  unfold txnTurn
  rw [h.isObject, Bool.not_true, if_neg Bool.false_ne_true, if_neg (not_not.mpr h.txid),
    if_neg (not_not.mpr h.hash), h.data]
  simp only [hsize, hstop]
  split_ifs
  · rfl
  · rfl

/-- The two forms of a transaction, where there is room for them. -/
theorem forms_within {i offset : Nat} {tx : Json} (h : placedStop offset tx < 2 ^ 32) :
    (placedAt i offset tx).hexWrite.Within offset (placedStop offset tx) ∧
      (placedAt i offset tx).binaryWrite.Within offset (placedStop offset tx) ∧
      (placedAt i offset tx).hexWrite.Apart (placedAt i offset tx).binaryWrite := by
  unfold placedStop at *
  simp [placedAt, PlacedTxn.hexWrite, PlacedTxn.binaryWrite, Write.Within, Write.Apart,
    Write.stop, Hex.length_decode]
  omega

/-! ## The whole loop -/

/-- The first transaction without room is behind the end of `local_data`, but not once its
    place is cut to 32 bits. -/
def wrapsBack : (i offset : Nat) → List Json → Bool
  | _, _, [] => false
  | i, offset, tx :: rest =>
    match parseTxn i tx with
    | none => false
    | some txn =>
      if offset + txn.room < localDataSize then wrapsBack (i + 1) (offset + txn.room) rest
      else (offset + txn.room) % 2 ^ 32 < localDataSize

/-- What the writes for the transactions from the `i`-th on are, in their order. -/
structure LoopSound (base i offset : Nat) (txs : List Json)
    (run : List (Write UInt8) × Option (List PlacedTxn)) : Prop where
  within : ∀ w ∈ run.1, w.Within (recordPlace i) (recordPlace (i + txs.length)) ∨
    w.Within offset localDataSize
  apart : run.1.Pairwise Write.Apart
  writes : ∀ placed, run.2 = some placed → run.1 = placed.flatMap fun p => p.writes base
  listed : ∀ placed, run.2 = some placed → placed.map (fun p => (p.tx, p.index)) = txs.zipIdx i
  complete : ∀ placed, run.2 = some placed → ∀ p ∈ placed, Complete p.tx
  forms : ∀ placed, run.2 = some placed →
    ∀ p ∈ placed, p.hexWrite.Within offset localDataSize ∧
    p.binaryWrite.Within offset localDataSize
  isSome : run.2.isSome = (parseTxns i offset txs).isSome

theorem recordPlace_mono {i j : Nat} (h : i ≤ j) : recordPlace i ≤ recordPlace j :=
  Nat.mul_le_mul_left _ h

theorem loopSound_of_stopped {base i offset : Nat} {tx : Json} {rest : List Json}
    {writes : List (Write UInt8)}
    (hwithin : ∀ w ∈ writes, w.Within (recordPlace i) (recordPlace (i + 1)))
    (hapart : writes.Pairwise Write.Apart) (hnone : parseTxns i offset (tx :: rest) = none) :
    LoopSound base i offset (tx :: rest) (writes, none) where
  within w hw := .inl ((hwithin w hw).mono le_rfl (recordPlace_mono (by simp)))
  apart := hapart
  writes := nofun
  listed := nofun
  complete := nofun
  forms := nofun
  isSome := by rw [hnone]; rfl

/-- One more transaction, with its record and its part of the room before the others. -/
theorem LoopSound.cons {base i offset : Nat} {tx : Json} {rest : List Json} {txn : GbtTxn}
    {later : List (Write UInt8) × Option (List PlacedTxn)} (hcomplete : Complete tx)
    (htxn : parseTxn i tx = some txn) (hroom : offset + txn.room = placedStop offset tx)
    (htable : recordPlace (i + 1 + rest.length) ≤ offset)
    (hfits : placedStop offset tx < localDataSize)
    (hlater : LoopSound base (i + 1) (placedStop offset tx) rest later) :
    LoopSound base i offset (tx :: rest)
      ((placedAt i offset tx).writes base ++ later.1,
        later.2.map (placedAt i offset tx :: ·)) := by
  have hrecord : ∀ w ∈ (placedAt i offset tx).recordWrites base,
      w.Within (recordPlace i) (recordPlace (i + 1)) := recordWrites_within hcomplete base
  have hrecordApart := recordWrites_apart (p := placedAt i offset tx) hcomplete base
  obtain ⟨hhex, hbinary, hforms⟩ := forms_within (i := i) (Nat.lt_trans hfits (by decide))
  have hbehind : recordPlace (i + 1) ≤ recordPlace (i + 1 + rest.length) :=
    recordPlace_mono (Nat.le_add_right _ _)
  have hoffset : offset ≤ placedStop offset tx := Nat.le_add_right _ _
  have hform : ∀ w ∈ [(placedAt i offset tx).hexWrite, (placedAt i offset tx).binaryWrite],
      w.Within offset (placedStop offset tx) := by
    simp [hhex, hbinary]
  constructor
  case within =>
    intro w hw
    simp only [PlacedTxn.writes, List.append_assoc, List.mem_append] at hw
    rcases hw with hw | hw | hw
    · exact .inl ((hrecord w hw).mono le_rfl (recordPlace_mono (by simp)))
    · exact .inr ((hform w hw).mono le_rfl hfits.le)
    · rcases hlater.within w hw with hw | hw
      · exact .inl (hw.mono (recordPlace_mono (Nat.le_succ i)) (recordPlace_mono (by simp; omega)))
      · exact .inr (hw.mono hoffset le_rfl)
  case apart =>
    have hown : ((placedAt i offset tx).writes base).Pairwise Write.Apart := by
      refine List.pairwise_append.mpr ⟨hrecordApart, List.pairwise_pair.mpr hforms, ?_⟩
      exact fun v hv w hw => (hrecord v hv).apart (hform w hw) (Nat.le_trans hbehind htable)
    refine List.pairwise_append.mpr ⟨hown, hlater.apart, fun v hv w hw => ?_⟩
    rcases List.mem_append.mp hv with hv | hv
    · rcases hlater.within w hw with hw | hw
      · exact (hrecord v hv).apart hw le_rfl
      · exact (hrecord v hv).apart hw (Nat.le_trans hbehind (Nat.le_trans htable hoffset))
    · rcases hlater.within w hw with hw | hw
      · exact (hw.apart (hform v hv) htable).symm
      · exact (hform v hv).apart hw le_rfl
  case writes =>
    intro placed hplaced
    obtain ⟨others, hothers, rfl⟩ := Option.map_eq_some_iff.mp hplaced
    rw [List.flatMap_cons, hlater.writes others hothers]
  case listed =>
    intro placed hplaced
    obtain ⟨others, hothers, rfl⟩ := Option.map_eq_some_iff.mp hplaced
    rw [List.map_cons, hlater.listed others hothers, List.zipIdx_cons]
    rfl
  case complete =>
    intro placed hplaced
    obtain ⟨others, hothers, rfl⟩ := Option.map_eq_some_iff.mp hplaced
    exact List.forall_mem_cons.mpr ⟨hcomplete, hlater.complete others hothers⟩
  case forms =>
    intro placed hplaced
    obtain ⟨others, hothers, rfl⟩ := Option.map_eq_some_iff.mp hplaced
    refine List.forall_mem_cons.mpr
      ⟨⟨hhex.mono le_rfl hfits.le, hbinary.mono le_rfl hfits.le⟩,
      fun p hp => ?_⟩
    obtain ⟨hhex, hbinary⟩ := hlater.forms others hothers p hp
    exact ⟨hhex.mono hoffset le_rfl, hbinary.mono hoffset le_rfl⟩
  case isSome =>
    have hnot : ¬ offset + txn.room ≥ localDataSize := by omega
    rw [Option.isSome_map, hlater.isSome, parseTxns, htxn, Option.bind_eq_bind, Option.bind_some,
      if_neg hnot, hroom]
    cases parseTxns (i + 1) (placedStop offset tx) rest with
    | none => rfl
    | some txns => rfl

/-- Where nothing wraps, the loop keeps each transaction to its record and its part of the
    room. -/
theorem loopSound_txnLoop (base : Nat) {txs : List Json} : ∀ {i offset : Nat},
    recordPlace (i + txs.length) ≤ offset → offset < 2 ^ 32 →
    (∀ tx ∈ txs, (dataText tx).length < 2 ^ 32) → wrapsBack i offset txs = false →
      LoopSound base i offset txs (txnLoop base i offset txs) := by
  induction txs with
  | nil =>
    intro i offset _ _ _ _
    constructor <;> simp [txnLoop, parseTxns]
  | cons tx rest ih =>
    intro i offset htable hoffset hdata hwraps
    rw [wrapsBack] at hwraps
    by_cases hcomplete : Complete tx
    · obtain ⟨txn, htxn, hroom⟩ := parseTxn_of_complete i hcomplete
      have hstop : offset + txn.room = placedStop offset tx := by rw [hroom]; rfl
      have hturn := txnTurn_of_complete base i offset hcomplete (hdata tx List.mem_cons_self)
      have htable' : recordPlace (i + 1 + rest.length) ≤ offset := by
        rw [Nat.add_assoc, Nat.add_comm 1]
        exact htable
      simp only [htxn, hstop] at hwraps
      rw [txnLoop, hturn]
      by_cases hfits : placedStop offset tx < localDataSize
      · have hlt : placedStop offset tx < 2 ^ 32 := Nat.lt_trans hfits (by decide)
        rw [if_pos hfits] at hwraps
        rw [Nat.mod_eq_of_lt hlt, if_neg (Nat.not_le.mpr hfits)]
        exact LoopSound.cons hcomplete htxn hstop htable' hfits
          (ih (Nat.le_trans htable' (Nat.le_add_right _ _)) hlt
            (fun tx htx => hdata tx (List.mem_cons_of_mem _ htx)) hwraps)
      · rw [if_neg hfits, decide_eq_false_iff_not, Nat.not_lt] at hwraps
        rw [if_pos hwraps]
        exact loopSound_of_stopped (recordWrites_within hcomplete base)
          (recordWrites_apart hcomplete base) (by simp [parseTxns, htxn, hstop, hfits])
    · obtain ⟨hnext, hwithin, hapart⟩ := txnTurn_of_not_complete base i offset hcomplete
      have hnone : parseTxn i tx = none :=
        Option.eq_none_iff_forall_ne_some.mpr fun txn htxn =>
          hcomplete (complete_of_parseTxn htxn)
      rw [txnLoop]
      simp only [hnext]
      exact loopSound_of_stopped hwithin hapart (by simp [parseTxns, hnone])

/-- Where a place wraps, the raw bytes of its transaction end behind `local_data`. -/
theorem localDataSize_lt_stop {i offset : Nat} {tx : Json} (hoffset : offset ≤ 2 ^ 32 - 256)
    (hroom : localDataSize ≤ placedStop offset tx)
    (hwraps : placedStop offset tx % 2 ^ 32 < localDataSize) :
    localDataSize < (placedAt i offset tx).binaryWrite.stop := by
  have hsize : localDataSize = 18194304 := rfl
  unfold placedStop at *
  simp only [placedAt, PlacedTxn.binaryWrite, Write.stop, List.length_take, Hex.length_decode]
  omega

theorem exists_outside_of_wrapsBack (base : Nat) {txs : List Json} : ∀ {i offset : Nat},
    offset ≤ 2 ^ 32 - 256 → (∀ tx ∈ txs, (dataText tx).length < 2 ^ 32) →
    wrapsBack i offset txs = true →
      ∃ w ∈ (txnLoop base i offset txs).1, localDataSize < w.stop := by
  induction txs with
  | nil => simp [wrapsBack]
  | cons tx rest ih =>
    intro i offset hoffset hdata hwraps
    rw [wrapsBack] at hwraps
    cases htxn : parseTxn i tx with
    | none =>
      rw [htxn] at hwraps
      cases hwraps
    | some txn =>
      have hcomplete := complete_of_parseTxn htxn
      obtain ⟨read, hread, hroom⟩ := parseTxn_of_complete i hcomplete
      obtain rfl : txn = read := Option.some.inj (htxn.symm.trans hread)
      have hstop : offset + txn.room = placedStop offset tx := by rw [hroom]; rfl
      simp only [htxn, hstop] at hwraps
      rw [txnLoop, txnTurn_of_complete base i offset hcomplete (hdata tx List.mem_cons_self)]
      by_cases hfits : placedStop offset tx < localDataSize
      · have hlt : placedStop offset tx < 2 ^ 32 := Nat.lt_trans hfits (by decide)
        have hsize : localDataSize ≤ 2 ^ 32 - 256 := by decide
        rw [if_pos hfits] at hwraps
        rw [Nat.mod_eq_of_lt hlt, if_neg (Nat.not_le.mpr hfits)]
        obtain ⟨w, hw, houtside⟩ := ih (i := i + 1) (Nat.le_trans hfits.le hsize)
          (fun tx htx => hdata tx (List.mem_cons_of_mem _ htx)) hwraps
        exact ⟨w, List.mem_append_right _ hw, houtside⟩
      · rw [if_neg hfits, decide_eq_true_iff] at hwraps
        rw [if_neg (Nat.not_le.mpr hwraps)]
        refine ⟨(placedAt i offset tx).binaryWrite, ?_,
          localDataSize_lt_stop hoffset (Nat.not_lt.mp hfits) hwraps⟩
        simp [PlacedTxn.writes]

/-! ## A reply -/

/-- The bytes that the two forms of the transactions take. -/
def formWrites (placed : List PlacedTxn) : List (Write UInt8) :=
  placed.flatMap fun p => [p.hexWrite, p.binaryWrite]

/-- What `local_data` holds behind an accepted reply. -/
structure ArenaKept (base : Nat) (txs : List Json) (writes : List (Write UInt8))
    (placed : List PlacedTxn) : Prop where
  listed : placed.map (fun p => (p.tx, p.index)) = (txs.take maxTemplateTxns).zipIdx
  table : ∀ p ∈ placed, ∀ w ∈ p.recordWrites base,
    w.Within (recordPlace p.index) (recordPlace (p.index + 1))
  apart : (formWrites placed).Pairwise Write.Apart
  behind : ∀ w ∈ formWrites placed, w.Within (recordPlace placed.length) localDataSize
  held : ∀ mem, ∀ p ∈ placed, ∀ w ∈ p.writes base, Holds (storeAll mem writes) w

/-- The transactions are written to `local_data` alone, the target to its own 32 bytes, and
    what is taken is still there at the end. -/
structure ArenaSound (base : Nat) (txs : List Json) (run : ArenaRun) : Prop where
  target : ∀ w ∈ run.target, w.Within 0 32
  inside : ∀ w ∈ run.writes, w.Within 0 localDataSize
  kept : ∀ placed, run.placed = some placed → ArenaKept base txs run.writes placed

theorem formWrites_sublist (base : Nat) (placed : List PlacedTxn) :
    (formWrites placed).Sublist (placed.flatMap fun p => p.writes base) := by
  induction placed with
  | nil => exact List.Sublist.slnil
  | cons p placed ih =>
    rw [formWrites, List.flatMap_cons, List.flatMap_cons]
    exact (List.sublist_append_right _ _).append ih

theorem arenaSound_of_loopSound {base offset : Nat} {txs : List Json}
    {target : List (Write UInt8)} {run : List (Write UInt8) × Option (List PlacedTxn)}
    (htarget : ∀ w ∈ target, w.Within 0 32)
    (h : LoopSound base 0 offset (txs.take maxTemplateTxns) run)
    (htable : recordPlace (txs.take maxTemplateTxns).length ≤ offset) :
    ArenaSound base txs ⟨target, run.1, run.2⟩ := by
  have hroom : recordPlace (txs.take maxTemplateTxns).length ≤ localDataSize := by
    have hlength := List.length_take_le maxTemplateTxns txs
    unfold recordPlace localDataSize maxTemplateTxns templateTxnBytes at *
    omega
  constructor
  case target => exact htarget
  case inside =>
    intro w hw
    rcases h.within w hw with hw | hw
    · rw [Nat.zero_add] at hw
      exact hw.mono (Nat.zero_le _) hroom
    · exact hw.mono (Nat.zero_le _) le_rfl
  case kept =>
    intro placed hplaced
    have hwrites := h.writes placed hplaced
    have hlength : placed.length = (txs.take maxTemplateTxns).length := by
      rw [← List.length_map, h.listed placed hplaced, List.length_zipIdx]
    constructor
    case listed => exact h.listed placed hplaced
    case table => exact fun p hp => recordWrites_within (h.complete placed hplaced p hp) base
    case apart => exact (hwrites ▸ h.apart).sublist (formWrites_sublist base placed)
    case behind =>
      intro w hw
      obtain ⟨p, hp, hw⟩ := List.mem_flatMap.mp hw
      obtain ⟨hhex, hbinary⟩ := h.forms placed hplaced p hp
      rw [hlength]
      rcases List.mem_pair.mp hw with rfl | rfl
      · exact hhex.mono htable le_rfl
      · exact hbinary.mono htable le_rfl
    case held =>
      intro mem p hp w hw
      refine holds_storeAll mem h.apart ?_
      rw [hwrites]
      exact List.mem_flatMap.mpr ⟨p, hp, hw⟩

/-- Whether a place wraps on the way through a reply. -/
def replyWrapsBack (txs : List Json) : Bool :=
  wrapsBack 0 (templateTxnBytes * txs.length) (txs.take maxTemplateTxns)

/-- The bounds on a reply: 32 bits for its table of transactions, and for their data. -/
structure ReplyFits (txs : List Json) : Prop where
  table : templateTxnBytes * txs.length < 2 ^ 32
  data : (txs.map fun tx => (dataText tx).length).sum < 2 ^ 32

theorem ReplyFits.length_lt {txs : List Json} (h : ReplyFits txs) :
    ∀ tx ∈ txs.take maxTemplateTxns, (dataText tx).length < 2 ^ 32 := fun _ htx =>
  have hmem := List.mem_map_of_mem (f := fun tx => (dataText tx).length) (List.mem_of_mem_take htx)
  Nat.lt_of_le_of_lt (List.single_le_sum (fun _ _ => Nat.zero_le _) _ hmem) h.data

theorem arenaLoop_eq (base : Nat) {txs : List Json} (h : ReplyFits txs) :
    arenaLoop base txs =
      txnLoop base 0 (templateTxnBytes * txs.length) (txs.take maxTemplateTxns) := by
  rw [arenaLoop, Nat.mod_eq_of_lt h.table]

theorem loopSound_arenaLoop (base : Nat) {txs : List Json} (h : ReplyFits txs)
    (hwraps : replyWrapsBack txs = false) :
    LoopSound base 0 (templateTxnBytes * txs.length) (txs.take maxTemplateTxns)
      (arenaLoop base txs) := by
  rw [arenaLoop_eq base h]
  refine loopSound_txnLoop base ?_ h.table h.length_lt hwraps
  rw [Nat.zero_add]
  exact recordPlace_mono (List.length_take_le' _ _)

theorem arenaSound_arenaLoop (base : Nat) {txs : List Json} (h : ReplyFits txs)
    (hwraps : replyWrapsBack txs = false) {target : List (Write UInt8)}
    (htarget : ∀ w ∈ target, w.Within 0 32) :
    ArenaSound base txs ⟨target, (arenaLoop base txs).1, (arenaLoop base txs).2⟩ :=
  arenaSound_of_loopSound htarget (loopSound_arenaLoop base h hwraps)
    (recordPlace_mono (List.length_take_le' _ _))

theorem exists_outside_arenaLoop (base : Nat) {txs : List Json} (h : ReplyFits txs)
    (hwraps : replyWrapsBack txs = true) :
    ∃ w ∈ (arenaLoop base txs).1, localDataSize < w.stop := by
  rw [arenaLoop_eq base h]
  refine exists_outside_of_wrapsBack base ?_ h.length_lt hwraps
  have htable := h.table
  unfold templateTxnBytes at *
  omega

/-- The transactions of a reply. -/
def replyTxs (gbt : Json) : List Json := (gbt.arrayAt "transactions").getD []

theorem replyTxs_of_arrayAt {gbt : Json} {txs : List Json}
    (h : gbt.arrayAt "transactions" = some txs) : replyTxs gbt = txs := by
  rw [replyTxs, h]
  rfl

theorem isSome_gbtTxnsOf (gbt : Json) :
    (gbtTxnsOf gbt).isSome = ((gbt.arrayAt "transactions").bind readTxns).isSome := by
  unfold gbtTxnsOf
  split
  · next hnone => rw [hnone]; rfl
  · next txs htxs =>
    have hread : (gbt.arrayAt "transactions").bind readTxns = readTxns txs := by
      rw [htxs, Option.bind_some]
    rw [hread]
    split
    · next hnone => rw [hnone]; rfl
    · next txns htxns => exact (Option.isSome_of_eq_some htxns).symm

theorem isSome_gbtParser (cfg : ParserConfig) (gbt : Json) :
    (gbtParser cfg gbt).isSome = ((transactionsReached cfg gbt).bind readTxns).isSome := by
  unfold gbtParser transactionsReached textsReached
  cases gbtNumbers gbt with
  | none => rfl
  | some numbers =>
    cases hheader : gbtHeader cfg gbt numbers.version with
    | none => simp [hheader]
    | some header =>
      cases gbtTexts gbt with
      | none => simp
      | some texts =>
        simp only [Option.bind_eq_bind, Option.bind_some, hheader]
        rw [← isSome_gbtTxnsOf]
        cases gbtTxnsOf gbt with
        | none => rfl
        | some read => rfl

section Reply

variable {cfg : ParserConfig} {base : Nat}
  {spoiled : List (Write UInt8) × Option (List PlacedTxn)} {gbt : Json}

/-- The target stays within its bytes, and no place wraps. -/
def ArenaRoom (gbt : Json) (texts : GbtTexts) : Prop :=
  nbitsExponent texts.bitsUint ≤ 32 ∧
    ∀ txs, gbt.arrayAt "transactions" = some txs → replyWrapsBack txs = false

/-- Where nothing wraps, the memory is filled to the end exactly for the replies that are
    accepted. -/
theorem isSome_arenaOf (hfits : ReplyFits (replyTxs gbt))
    (hroom : ∀ texts, textsReached cfg gbt = some texts → ArenaRoom gbt texts) :
    (arenaOf cfg base spoiled gbt).placed.isSome = (gbtParser cfg gbt).isSome := by
  rw [isSome_gbtParser, arenaOf, transactionsReached]
  cases htexts : textsReached cfg gbt with
  | none => rfl
  | some texts =>
    obtain ⟨hsize, hwraps⟩ := hroom texts htexts
    simp only [if_neg (Nat.not_lt.mpr hsize), Option.bind_eq_bind, Option.bind_some]
    cases htxs : gbt.arrayAt "transactions" with
    | none => rfl
    | some txs =>
      rw [replyTxs_of_arrayAt htxs] at hfits
      exact (loopSound_arenaLoop base hfits (hwraps txs htxs)).isSome

/-- The parser keeps to the target and to the memory of its template exactly where the bits
    have a size that a target can have and no place wraps. -/
theorem arenaSound_iff (hfits : ReplyFits (replyTxs gbt)) :
    ArenaSound base (replyTxs gbt) (arenaOf cfg base spoiled gbt) ↔
      ∀ texts, textsReached cfg gbt = some texts → ArenaRoom gbt texts := by
  unfold arenaOf
  cases htexts : textsReached cfg gbt with
  | none => exact iff_of_true ⟨nofun, nofun, nofun⟩ nofun
  | some texts =>
    simp only [Option.some.injEq, forall_eq']
    by_cases hwide : 32 < nbitsExponent texts.bitsUint
    · rw [if_pos hwide]
      refine iff_of_false (fun hsound => ?_) fun hroom => Nat.not_le.mpr hwide hroom.1
      exact Nat.not_le.mpr hwide ((inside_iff texts.bitsUint).mp hsound.target)
    rw [if_neg hwide, ArenaRoom, and_iff_right (Nat.not_lt.mp hwide)]
    have htarget := (inside_iff texts.bitsUint).mpr (Nat.not_lt.mp hwide)
    cases htxs : gbt.arrayAt "transactions" with
    | none => exact iff_of_true ⟨htarget, nofun, nofun⟩ nofun
    | some txs =>
      rw [replyTxs_of_arrayAt htxs] at hfits ⊢
      simp only [Option.some.injEq, forall_eq']
      constructor
      · intro hsound
        by_contra hwraps
        obtain ⟨w, hw, houtside⟩ :=
          exists_outside_arenaLoop base hfits (Bool.not_eq_false _ ▸ hwraps)
        exact absurd (hsound.inside w hw).2 (Nat.not_le.mpr houtside)
      · exact fun hwraps => arenaSound_arenaLoop base hfits hwraps htarget

end Reply

/-- One small transaction at the head of a list. -/
def smallTx : Json := oneSatTx.objectSet "data" (.string (List.replicate 170 0x30))

/-- A list so long that the place of its first transaction is at the end of 32 bits. -/
def crowdedTxs (count : Nat) : List Json := smallTx :: List.replicate count .null

def crowdedReply (count : Nat) : Json :=
  (oneSatReply 1).objectSet "transactions" (.array (crowdedTxs count))

theorem dataText_small : dataText smallTx = List.replicate 170 0x30 := rfl

theorem length_dataText_small : (dataText smallTx).length = 170 := by
  rw [dataText_small, List.length_replicate]

theorem complete_small : Complete smallTx := ⟨rfl, rfl, rfl, rfl⟩

theorem replyFits_crowded {count : Nat} (hcount : count < 2 ^ 24 - 1) :
    ReplyFits (crowdedTxs count) where
  table := by
    simp [crowdedTxs, templateTxnBytes]
    omega
  data := by
    have hnull : (dataText .null).length = 0 := rfl
    simp [crowdedTxs, hnull, length_dataText_small]

theorem wraps_crowded {count : Nat} (hcount : count = 2 ^ 24 - 2) :
    replyWrapsBack (crowdedTxs count) = true := by
  obtain ⟨txn, htxn, hroom⟩ := parseTxn_of_complete 0 complete_small
  rw [length_dataText_small] at hroom
  have hoffset : templateTxnBytes * (crowdedTxs count).length = 2 ^ 32 - 256 := by
    rw [crowdedTxs, List.length_cons, List.length_replicate, templateTxnBytes]
    omega
  have htake : (crowdedTxs count).take maxTemplateTxns =
      smallTx :: (List.replicate count Json.null).take (maxTemplateTxns - 1) :=
    List.take_cons (by decide)
  have hsize : localDataSize = 18194304 := rfl
  rw [replyWrapsBack, hoffset, htake, wrapsBack, htxn]
  simp only [hroom, hsize]
  rw [if_neg (by omega), decide_eq_true_iff]
  omega

/-- The place of the first transaction passes the check as 2, and is 4 GiB behind
    `local_data`. -/
theorem crowdedReply_not_sound :
    ReplyFits (replyTxs (crowdedReply (2 ^ 24 - 2))) ∧
      ¬ ArenaSound 0 (replyTxs (crowdedReply (2 ^ 24 - 2)))
        (arenaOf blake2bParser 0 ([], none) (crowdedReply (2 ^ 24 - 2))) := by
  have htxs : (crowdedReply (2 ^ 24 - 2)).arrayAt "transactions" =
      some (crowdedTxs (2 ^ 24 - 2)) := rfl
  have htexts : textsReached blake2bParser (crowdedReply (2 ^ 24 - 2)) =
      textsReached blake2bParser (oneSatReply 1) := rfl
  have hreached : (textsReached blake2bParser (oneSatReply 1)).isSome = true := by decide +kernel
  obtain ⟨texts, hsome⟩ := Option.isSome_iff_exists.mp hreached
  have hfits : ReplyFits (replyTxs (crowdedReply (2 ^ 24 - 2))) := by
    rw [replyTxs_of_arrayAt htxs]
    exact replyFits_crowded (by decide)
  refine ⟨hfits, fun hsound => ?_⟩
  have hroom := (arenaSound_iff hfits).mp hsound texts (htexts.trans hsome)
  exact Bool.noConfusion ((hroom.2 _ htxs).symm.trans (wraps_crowded rfl))

theorem arenaSound_oneSat :
    ArenaSound 0 (replyTxs (oneSatReply 1))
      (arenaOf blake2bParser 0 ([], none) (oneSatReply 1)) := by
  refine (arenaSound_iff ⟨by decide, by decide⟩).mpr fun texts htexts => ⟨?_, ?_⟩
  · have hbits : (textsReached blake2bParser (oneSatReply 1)).map
        (fun texts => decide (nbitsExponent texts.bitsUint ≤ 32)) = some true := by decide +kernel
    rw [htexts] at hbits
    exact of_decide_eq_true (Option.some.inj hbits)
  · intro txs htxs
    obtain rfl := Option.some.inj (htxs.symm.trans rfl)
    decide +kernel

end ChirpGateway
