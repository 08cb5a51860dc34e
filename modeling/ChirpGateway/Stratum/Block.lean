import ChirpGateway.Pow.Distinguish
import ChirpGateway.Stratum.Submit

/-!
# The block of a share

`assembleBlockAndSubmit` (`datum_stratum.c:2506-2605`) with the helpers of
`datum_stratum.c:2455-2504`, for jobs on a template of header version 2: the block
that is written for a share, and what a node makes of it.
-/

namespace ChirpGateway

open Bytes Wire

/-! ## The coinbase in a block -/

/-- `MAX_COINBASE_TXN_SIZE_BYTES`. -/
def maxCoinbaseTxnSize : Nat := 16960

/-- `datum_stratum_block_needs_witness`. -/
def blockNeedsWitness (job : StratumJob) (subsidyOnly : Bool) : Bool :=
  !subsidyOnly && !job.blockTemplate.defaultWitnessCommitment.isEmpty

/-- A transaction with a witness of one item of zeros: the marker goes behind the
    version, the item in front of the lock time. -/
def insertWitness (txn : List UInt8) : List UInt8 :=
  txn.take 4 ++ ([0, 1] ++
    ((txn.drop 4).take (txn.length - 8) ++ (1 :: 0x20 :: List.replicate 32 0 ++
    txn.drop (txn.length - 4))))

/-- `datum_stratum_coinbase_for_block_hex` into the buffer that is kept for it;
    `none` where it returns 0. -/
def coinbaseForBlock (coinbaseTxn : List UInt8) (addWitness : Bool) : Option (List UInt8) :=
  let inserts := addWitness && !alreadyWitnessed coinbaseTxn
  if coinbaseTxn.length < (if addWitness then 8 else 1) then none
  else if (coinbaseTxn.length + if inserts then 36 else 0) * 2 >
      (maxCoinbaseTxnSize + 36) * 2 + 1 then
    none
  else some (if inserts then insertWitness coinbaseTxn else coinbaseTxn)

/-- A transaction of one input without its witness, over which its id is
    computed. -/
def strippedTxn (txn : List UInt8) : List UInt8 :=
  if alreadyWitnessed txn then
    txn.take 4 ++ ((txn.drop 6).take (txn.length - 44) ++ txn.drop (txn.length - 4))
  else
    txn

theorem length_insertWitness {txn : List UInt8} (hlen : 8 ≤ txn.length) :
    (insertWitness txn).length = txn.length + 36 := by
  simp only [insertWitness, List.length_append, List.length_take, List.length_drop,
    List.length_cons, List.length_nil, List.length_replicate]
  omega

/-- The id does not depend on the witness. -/
theorem strippedTxn_insertWitness {txn : List UInt8} (hlen : 8 ≤ txn.length) :
    strippedTxn (insertWitness txn) = txn := by
  have htake : (txn.take 4).length = 4 := by
    rw [List.length_take]
    omega
  have hmiddle : ((txn.drop 4).take (txn.length - 8)).length = txn.length - 8 := by
    rw [List.length_take, List.length_drop]
    omega
  have hwitness : alreadyWitnessed (insertWitness txn) = true := by
    have hfour : (insertWitness txn).getD 4 0 = 0 := by
      rw [insertWitness, List.getD_eq_getElem?_getD, List.getElem?_append_right (by omega), htake]
      rfl
    have hfive : (insertWitness txn).getD 5 0 = 1 := by
      rw [insertWitness, List.getD_eq_getElem?_getD, List.getElem?_append_right (by omega), htake]
      rfl
    rw [alreadyWitnessed, hfour, hfive, length_insertWitness hlen]
    simp
  have hbody : (insertWitness txn).drop 6 = (txn.drop 4).take (txn.length - 8) ++
      (1 :: 0x20 :: List.replicate 32 0 ++ txn.drop (txn.length - 4)) := by
    rw [insertWitness, ← List.append_assoc]
    apply List.drop_left'
    rw [List.length_append, htake]
    rfl
  have hend : (insertWitness txn).drop (txn.length + 36 - 4) = txn.drop (txn.length - 4) := by
    have hsplit : insertWitness txn =
        (txn.take 4 ++ ([0, 1] ++ ((txn.drop 4).take (txn.length - 8) ++
        (1 :: 0x20 :: List.replicate 32 0)))) ++ txn.drop (txn.length - 4) := by
      simp only [insertWitness, List.append_assoc]
    rw [hsplit]
    apply List.drop_left'
    simp only [List.length_append, htake, hmiddle, List.length_cons, List.length_nil,
      List.length_replicate]
    omega
  have hcount : txn.length + 36 - 44 = txn.length - 8 := by omega
  have hfront : (insertWitness txn).take 4 = txn.take 4 := by
    rw [insertWitness, List.take_left' htake]
  rw [strippedTxn, if_pos hwitness, length_insertWitness hlen, hbody, hend, hcount, hfront,
    List.take_left' hmiddle]
  have hjoin : (txn.drop 4).take (txn.length - 8) ++ txn.drop (txn.length - 4) = txn.drop 4 := by
    have hdrop : txn.drop (txn.length - 4) = (txn.drop 4).drop (txn.length - 8) := by
      rw [List.drop_drop]
      congr 1
      omega
    rw [hdrop, List.take_append_drop]
  rw [hjoin, List.take_append_drop]

theorem strippedTxn_of_coinbaseForBlock {txn written : List UInt8} {addWitness : Bool}
    (hunmarked : alreadyWitnessed txn = false)
    (h : coinbaseForBlock txn addWitness = some written) : strippedTxn written = txn := by
  cases addWitness with
  | false =>
    simp only [coinbaseForBlock, Bool.false_and, Bool.false_eq_true, if_false] at h
    split_ifs at h
    cases h
    rw [strippedTxn, hunmarked, if_neg Bool.false_ne_true]
  | true =>
    simp only [coinbaseForBlock, hunmarked, Bool.not_false, Bool.and_true, if_true] at h
    split_ifs at h with hlen
    cases h
    exact strippedTxn_insertWitness (Nat.le_of_not_lt hlen)

/-! ## The block -/

/-- What the text of `submitblock` carries. -/
structure SubmittedBlock where
  header : List UInt8
  txCount : Nat
  coinbase : List UInt8
  transactions : List TemplateTxn

/-- The bytes of the block. -/
def SubmittedBlock.bytes (block : SubmittedBlock) : List UInt8 :=
  block.header ++ varint block.txCount ++ block.coinbase ++
    block.transactions.flatMap TemplateTxn.data

namespace SubmittedWork

variable (work : SubmittedWork)

/-- `full_cb_txn`: the extranonce of a miner is in the header and not here. -/
def coinbaseTxn : List UInt8 := work.coinbase.txn zeroExtranonce

/-- The transactions behind the coinbase. -/
def blockTransactions : List TemplateTxn :=
  if work.emptyWork then [] else work.job.blockTemplate.txns

/-- The coinbase as it is written. -/
def blockCoinbase : List UInt8 :=
  (coinbaseForBlock work.coinbaseTxn (blockNeedsWitness work.job work.emptyWork)).getD
    work.coinbaseTxn

/-- `txcount`, which has 16 bits. -/
def blockTxcount : UInt16 :=
  let tmpl := work.job.blockTemplate
  if tmpl.headerTransactionCount ≠ 0 then tmpl.headerTransactionCount.toUInt16
  else UInt16.ofNat ((if work.emptyWork then 0 else tmpl.txns.length) + 1)

section Hashes

variable (sha256 : List UInt8 → Hash32) (blake2b : List UInt8 → Hash32)

/-- `merkle`. -/
def blockMerkle : Hash32 :=
  if merkleBranches sha256 work.job ≠ [] ∧ work.emptyWork = false then
    merkleRootCalc sha256 work.job (doubleSha256 sha256 work.coinbaseTxn)
  else
    doubleSha256 sha256 work.coinbaseTxn

/-- The fields of the header, with the time and the nonce out of the work. -/
def blockHeader : HeaderV2 :=
  let tmpl := work.job.blockTemplate
  { version := tmpl.version
    prevhash := tmpl.previousblockhashBin
    merkle := work.blockMerkle sha256
    timeOnWire := tmpl.blake2bTimeOnWire
    nbits := tmpl.bitsUint
    nonce := ((work.header sha256 blake2b).drop 32).take 8
    ntime := ((work.header sha256 blake2b).drop 40).take 8
    extranonce := work.extranonce
    txcount := work.blockTxcount
    flags := tmpl.headerFlags
    xorKeyMaskClearBits := tmpl.xorKeyMaskClearBits
    xorKey := tmpl.xorKey
    height := tmpl.height
    rhs := tmpl.mergeMiningRhs }

/-- `assembleBlockAndSubmit`: the block it writes. -/
def assembleBlock : SubmittedBlock where
  header := serializeBlockHeader (work.blockHeader sha256 blake2b)
  txCount := if work.emptyWork then 1 else work.job.blockTemplate.txns.length + 1
  coinbase := work.blockCoinbase
  transactions := work.blockTransactions

/-- A node finds the root of the block in its header, and there the hash that was
    tested. -/
def BlockSound : Prop :=
  ∃ header, readHeader (work.assembleBlock sha256 blake2b).header = some header ∧
    header.merkle = Merkle.root (hashPair sha256)
      (doubleSha256 sha256 (strippedTxn (work.assembleBlock sha256 blake2b).coinbase))
      ((work.assembleBlock sha256 blake2b).transactions.map TemplateTxn.txidBin) ∧
    header.powHash sha256 blake2b = work.shareHash sha256 blake2b

end Hashes

/-- What `client_mining_submit` has made sure of. -/
structure Chosen : Prop where
  unmarked : alreadyWitnessed work.coinbaseTxn = false
  userLotto_full : work.userLotto = true → work.emptyWork = false

/-- It is sound whenever the share is a block, whatever the hash functions are. -/
def AlwaysSound : Prop :=
  ∀ sha256 blake2b : List UInt8 → Hash32,
    work.isBlock sha256 blake2b → work.BlockSound sha256 blake2b

/-- The coinbase is the one the commitment was made for, and empty work is meant
    for an empty template. -/
def BindsCommitment : Prop :=
  work.userLotto = true ∨
    work.coinbaseTxn = work.job.committedCoinbase.txn zeroExtranonce ∧
      (work.emptyWork = true → work.job.blockTemplate.txns = [])

theorem header_eq (sha256 blake2b : List UInt8 → Hash32) : work.header sha256 blake2b =
    siaPrevhash sha256 work.job.blockTemplate.previousblockhashBin ++ (work.nonce ++ (work.ntime ++
      (workRoot blake2b (work.commitment sha256) work.extranonce).bytes)) := rfl

theorem nonce_of_header (sha256 blake2b : List UInt8 → Hash32) :
    ((work.header sha256 blake2b).drop 32).take 8 = work.nonce := by
  rw [header_eq, List.drop_left' (length_siaPrevhash _ _), List.take_left' work.nonce_length]

theorem ntime_of_header (sha256 blake2b : List UInt8 → Hash32) :
    ((work.header sha256 blake2b).drop 40).take 8 = work.ntime := by
  have hfront : (siaPrevhash sha256 work.job.blockTemplate.previousblockhashBin ++
      work.nonce).length = 40 := by
    rw [List.length_append, length_siaPrevhash, work.nonce_length]
  rw [header_eq, ← List.append_assoc, List.drop_left' hfront, List.take_left' work.ntime_length]

theorem blockHeader_sized (sha256 blake2b : List UInt8 → Hash32) :
    (work.blockHeader sha256 blake2b).Sized where
  prevhash := work.job.blockTemplate.prevhash_length
  nonce := (congrArg List.length (work.nonce_of_header sha256 blake2b)).trans work.nonce_length
  ntime := (congrArg List.length (work.ntime_of_header sha256 blake2b)).trans work.ntime_length
  extranonce := work.extranonce_length
  xorKey := work.job.blockTemplate.xorKey_length
  rhs := work.job.blockTemplate.mergeMiningRhs_length

/-- The commitment a node computes. -/
def nodeCommitment (sha256 : List UInt8 → Hash32) (merkle : Hash32) : Hash32 :=
  let tmpl := work.job.blockTemplate
  headerCommitment sha256 (completeVersion tmpl.version) tmpl.previousblockhashBin tmpl.height
    merkle tmpl.blake2bTimeOnWire tmpl.bitsUint (UInt32.ofNat work.blockTxcount.toNat)
    tmpl.headerFlags tmpl.xorKeyMaskClearBits tmpl.xorKey tmpl.mergeMiningRhs

/-- The hash of the work over another commitment. -/
def hashOver (sha256 blake2b : List UInt8 → Hash32) (commitment : Hash32) : List UInt8 :=
  let tmpl := work.job.blockTemplate
  powHashLe sha256 blake2b (workHeader sha256 tmpl.previousblockhashBin work.nonce work.ntime
    (workRoot blake2b commitment work.extranonce)) tmpl.xorKey tmpl.xorKeyMaskClearBits

theorem shareHash_eq (sha256 blake2b : List UInt8 → Hash32) :
    work.shareHash sha256 blake2b = work.hashOver sha256 blake2b (work.commitment sha256) := rfl

/-- The root in the header is the one over what follows it. -/
theorem blockMerkle_eq (sha256 : List UInt8 → Hash32) :
    work.blockMerkle sha256 = Merkle.root (hashPair sha256) (doubleSha256 sha256 work.coinbaseTxn)
      (work.blockTransactions.map TemplateTxn.txidBin) := by
  unfold blockMerkle blockTransactions
  by_cases hempty : work.emptyWork = true
  · rw [if_neg (fun h => Bool.noConfusion (h.2.symm.trans hempty)), if_pos hempty, List.map_nil,
      Merkle.root]
  · rw [Bool.not_eq_true] at hempty
    rw [if_neg (ne_true_of_eq_false hempty)]
    split
    · exact merkleRootCalc_eq _ _ _
    · next hbranches =>
      have hnil : merkleBranches sha256 work.job = [] := by
        by_contra hne
        exact hbranches ⟨hne, hempty⟩
      rw [merkleBranches, Merkle.branches_eq_nil_iff] at hnil
      rw [hnil, Merkle.root]

/-- What is written for the coinbase has its id. -/
theorem strippedTxn_blockCoinbase {work : SubmittedWork} (h : work.Chosen) :
    strippedTxn work.blockCoinbase = work.coinbaseTxn := by
  unfold blockCoinbase
  cases hwritten : coinbaseForBlock work.coinbaseTxn
      (blockNeedsWitness work.job work.emptyWork) with
  | none => rw [Option.getD_none, strippedTxn, h.unmarked, if_neg Bool.false_ne_true]
  | some written => exact strippedTxn_of_coinbaseForBlock h.unmarked hwritten

/-- The block of a share is sound when the node's commitment gives its hash. -/
theorem blockSound_iff {work : SubmittedWork} (h : work.Chosen)
    (sha256 blake2b : List UInt8 → Hash32) :
    work.BlockSound sha256 blake2b ↔
      work.hashOver sha256 blake2b (work.nodeCommitment sha256 (work.blockMerkle sha256)) =
        work.shareHash sha256 blake2b := by
  have hread := readHeader_serializeBlockHeader (work.blockHeader_sized sha256 blake2b)
  have hhash : HeaderV2.powHash sha256 blake2b { work.blockHeader sha256 blake2b with
      version := completeVersion (work.blockHeader sha256 blake2b).version } =
      work.hashOver sha256 blake2b (work.nodeCommitment sha256 (work.blockMerkle sha256)) := by
    simp only [HeaderV2.powHash, blockHeader, nonce_of_header, ntime_of_header]
    rfl
  have hroot : work.blockMerkle sha256 = Merkle.root (hashPair sha256)
      (doubleSha256 sha256 (strippedTxn work.blockCoinbase))
      (work.blockTransactions.map TemplateTxn.txidBin) := by
    rw [strippedTxn_blockCoinbase h, blockMerkle_eq]
  constructor
  · rintro ⟨header, hheader, -, hpow⟩
    obtain rfl : _ = header := Option.some.inj (hread.symm.trans hheader)
    exact hhash.symm.trans hpow
  · intro hpow
    exact ⟨_, hread, hroot, hhash.trans hpow⟩

end SubmittedWork

/-! ## When it is sound -/

theorem completeVersion_completeVersion (version : UInt32) :
    completeVersion (completeVersion version) = completeVersion version := by
  rw [completeVersion, completeVersion, UInt32.or_assoc, UInt32.or_self]

theorem headerCommitment_completeVersion (sha256 : List UInt8 → Hash32) (version : UInt32)
    (prevhash : List UInt8) (height : UInt32) (merkle : Hash32)
    (timeOnWire nbits txcount : UInt32) (flags clearBits : UInt8) (xorKey rhs : List UInt8) :
    headerCommitment sha256 (completeVersion version) prevhash height merkle timeOnWire nbits
      txcount flags clearBits xorKey rhs =
      headerCommitment sha256 version prevhash height merkle timeOnWire nbits txcount flags
        clearBits xorKey rhs := by
  simp only [headerCommitment, h1Payload, completeVersion_completeVersion]

section Read

variable {decode : List UInt8 → Option (List UInt8)} {config : LottoConfig} {m : MinerData}
variable {jobs : Fin 256 → Option StratumJob} {params : Json} {work : SubmittedWork}

theorem chosen_of_chosenCoinbase {job : StratumJob} {emptyWork userLotto : Bool}
    {coinbaseIndex : Nat} {coinbase : StratumCoinbase} {userScript : Option (List UInt8)}
    (h : chosenCoinbase (lottoCoinbase decode config job userScript) job emptyWork coinbaseIndex =
      .ok (coinbase, userLotto)) :
    alreadyWitnessed (coinbase.txn zeroExtranonce) = false ∧
      (userLotto = true → emptyWork = false) := by
  unfold chosenCoinbase at h
  split at h
  · split at h
    · cases h
      exact ⟨job.subsidyOnly_unmarked, fun hlotto => Bool.noConfusion hlotto⟩
    · next hempty =>
      split at h
      · next hlotto =>
        cases h
        have hstart := job.coinbase_start
        rw [← coinb1Bin_of_lottoCoinbase hlotto] at hstart
        exact ⟨alreadyWitnessed_of_cbStart hstart _, fun _ => Bool.eq_false_iff.mpr hempty⟩
      · cases h
        exact ⟨job.coinbase_unmarked _, fun hlotto => Bool.noConfusion hlotto⟩
  · split at h
    · cases h
      exact ⟨job.subsidyOnly_unmarked, fun hlotto => Bool.noConfusion hlotto⟩
    · cases h

theorem chosen_of_readSubmit (h : readSubmit decode config m jobs params = .ok work) :
    work.Chosen := by
  obtain ⟨quoted, hread⟩ := readFrom_of_readSubmit h
  obtain ⟨hunmarked, hfull⟩ := chosen_of_chosenCoinbase hread.coinbase
  exact ⟨hunmarked, hfull⟩

/-- The commitment of a share, in the words of the node's. -/
theorem commitment_eq (sha256 : List UInt8 → Hash32) (coinbase : StratumCoinbase) :
    commitForCoinbase sha256 work.job coinbase =
      headerCommitment sha256 work.job.blockTemplate.version
        work.job.blockTemplate.previousblockhashBin work.job.blockTemplate.height
        (Merkle.root (hashPair sha256) (doubleSha256 sha256 (coinbase.txn zeroExtranonce))
          (work.job.blockTemplate.txns.map TemplateTxn.txidBin))
        work.job.blockTemplate.blake2bTimeOnWire work.job.blockTemplate.bitsUint
        work.job.blockTemplate.committedTxcount work.job.blockTemplate.headerFlags
        work.job.blockTemplate.xorKeyMaskClearBits work.job.blockTemplate.xorKey
        work.job.blockTemplate.mergeMiningRhs := by
  unfold commitForCoinbase
  rw [merkleRootCalc_eq]

theorem commitForCoinbase_congr (sha256 : List UInt8 → Hash32) {job : StratumJob}
    {coinbase other : StratumCoinbase}
    (h : coinbase.txn zeroExtranonce = other.txn zeroExtranonce) :
    commitForCoinbase sha256 job coinbase = commitForCoinbase sha256 job other := by
  unfold commitForCoinbase
  rw [h]

/-- The transaction count of the header is the one committed to. -/
theorem blockTxcount_eq
    (hcount : work.job.blockTemplate.headerTransactionCount = 0 ∨
      work.job.blockTemplate.headerTransactionCount.toNat =
        work.job.blockTemplate.txns.length + 1)
    (hfull : work.emptyWork = true → work.job.blockTemplate.txns = []) :
    UInt32.ofNat work.blockTxcount.toNat = work.job.blockTemplate.committedTxcount := by
  have hlen := work.job.blockTemplate.txns_length_le
  unfold SubmittedWork.blockTxcount BlockTemplate.committedTxcount
  rcases hcount with hzero | hcount
  · have hsame : (if work.emptyWork then 0 else work.job.blockTemplate.txns.length) =
        work.job.blockTemplate.txns.length := by
      split
      · next hempty => rw [hfull hempty]; rfl
      · rfl
    have hsmall : (UInt16.ofNat (work.job.blockTemplate.txns.length + 1)).toNat =
        work.job.blockTemplate.txns.length + 1 :=
      UInt16.toNat_ofNat_of_lt' (show _ < 65536 by omega)
    simp only [hzero, ne_eq, not_true_eq_false, if_false, hsame, hsmall]
  · have hne : work.job.blockTemplate.headerTransactionCount ≠ 0 := by
      intro hzero
      rw [hzero] at hcount
      cases hcount
    rw [if_pos hne, if_pos hne]
    apply UInt32.toNat_inj.mp
    rw [UInt32.toNat_ofNat_of_lt' (Nat.lt_trans (UInt16.toNat_lt _) (by decide)),
      UInt32.toNat_toUInt16, hcount, Nat.mod_eq_of_lt (by omega)]

/-- A block for which the client has chosen the coinbase that was committed to is
    sound. -/
theorem blockSound_of_bindsCommitment (hchosen : work.Chosen)
    (hcount : work.job.blockTemplate.headerTransactionCount = 0 ∨
      work.job.blockTemplate.headerTransactionCount.toNat =
        work.job.blockTemplate.txns.length + 1)
    (hbinds : work.BindsCommitment) (sha256 blake2b : List UInt8 → Hash32) :
    work.BlockSound sha256 blake2b := by
  have hfull : work.emptyWork = true → work.job.blockTemplate.txns = [] := by
    rcases hbinds with hlotto | ⟨-, hfull⟩
    · rw [hchosen.userLotto_full hlotto]
      exact fun h => Bool.noConfusion h
    · exact hfull
  have htxns : work.blockTransactions = work.job.blockTemplate.txns := by
    unfold SubmittedWork.blockTransactions
    split
    · next hempty => exact (hfull hempty).symm
    · rfl
  have hcommitment : work.commitment sha256 = commitForCoinbase sha256 work.job work.coinbase := by
    unfold SubmittedWork.commitment
    split
    · rfl
    · next hlotto =>
      obtain ⟨htxn, -⟩ := hbinds.resolve_left hlotto
      exact commitForCoinbase_congr sha256 htxn.symm
  rw [SubmittedWork.blockSound_iff hchosen, SubmittedWork.shareHash_eq, hcommitment, commitment_eq,
    SubmittedWork.nodeCommitment, headerCommitment_completeVersion, SubmittedWork.blockMerkle_eq,
    htxns, blockTxcount_eq hcount hfull]
  rfl

/-- Else there are hash functions with which it is not. -/
theorem exists_not_blockSound (hchosen : work.Chosen) (hbinds : ¬ work.BindsCommitment) :
    ∃ sha256 blake2b : List UInt8 → Hash32,
      work.isBlock sha256 blake2b ∧ ¬ work.BlockSound sha256 blake2b := by
  unfold SubmittedWork.BindsCommitment at hbinds
  rw [not_or, Bool.not_eq_true] at hbinds
  obtain ⟨hlotto, hother⟩ := hbinds
  have hcommitment (sha256 : List UInt8 → Hash32) : work.commitment sha256 =
      commitForCoinbase sha256 work.job work.job.committedCoinbase := by
    rw [SubmittedWork.commitment, hlotto, if_neg Bool.false_ne_true]
    rfl
  have hprevhash := work.job.blockTemplate.prevhash_length
  have hrhs := work.job.blockTemplate.mergeMiningRhs_length
  -- the two commitments are told apart first
  have hsha : ∃ sha256 : List UInt8 → Hash32,
      work.commitment sha256 ≠ work.nodeCommitment sha256 (work.blockMerkle sha256) := by
    by_cases htxn : work.coinbaseTxn = work.job.committedCoinbase.txn zeroExtranonce
    · have hempty : work.emptyWork = true ∧ work.job.blockTemplate.txns ≠ [] := by
        by_contra hnot
        exact hother ⟨htxn, fun hempty => by_contra fun hne => hnot ⟨hempty, hne⟩⟩
      have htxids : work.job.blockTemplate.txns.map TemplateTxn.txidBin ≠ [] := by
        rw [ne_eq, List.map_eq_nil_iff]
        exact hempty.2
      obtain ⟨sha256, yes, no, hne, hleaf, hroot, hyes, hno⟩ :=
        exists_sha256_of_txids (work.job.committedCoinbase.txn zeroExtranonce) htxids
      refine ⟨sha256, ?_⟩
      rw [hcommitment, commitment_eq, hroot, hno _ _ hprevhash hrhs,
        SubmittedWork.blockMerkle_eq, SubmittedWork.blockTransactions, if_pos hempty.1,
        List.map_nil, Merkle.root, htxn, hleaf, SubmittedWork.nodeCommitment,
        hyes _ _ hprevhash hrhs]
      exact hne.symm
    · obtain ⟨sha256, yes, no, hne, hcommitted, hchose, hyes, hno⟩ :=
        exists_sha256_of_txn_ne (Ne.symm htxn)
      refine ⟨sha256, ?_⟩
      rw [hcommitment, commitment_eq, hcommitted, hyes _ _ hprevhash hrhs,
        SubmittedWork.blockMerkle_eq, hchose, SubmittedWork.nodeCommitment,
        hno _ _ hprevhash hrhs]
      exact hne
  obtain ⟨sha256, hne⟩ := hsha
  obtain ⟨blake2b, hzero, hnode⟩ := exists_blake2b_of_ne sha256 hne work.nonce_length
    work.ntime_length work.extranonce_length work.job.blockTemplate.previousblockhashBin
    work.job.blockTemplate.xorKey work.job.blockTemplate.xorKeyMaskClearBits
  have hshare : work.shareHash sha256 blake2b = List.replicate 32 0 := hzero
  refine ⟨sha256, blake2b, ?_, ?_⟩
  · rw [SubmittedWork.isBlock, hshare]
    exact compareHashes_zero_le _ _
  · rw [SubmittedWork.blockSound_iff hchosen, hshare]
    exact hnode

/-- The block of a share is sound exactly when the client quotes the coinbase that
    was committed to, with its transactions. -/
theorem alwaysSound_iff_bindsCommitment
    (hread : readSubmit decode config m jobs params = .ok work)
    (hcount : work.job.blockTemplate.headerTransactionCount = 0 ∨
      work.job.blockTemplate.headerTransactionCount.toNat =
        work.job.blockTemplate.txns.length + 1) :
    work.AlwaysSound ↔ work.BindsCommitment := by
  have hchosen := chosen_of_readSubmit hread
  constructor
  · intro hsound
    by_contra hbinds
    obtain ⟨sha256, blake2b, hblock, hnot⟩ := exists_not_blockSound hchosen hbinds
    exact hnot (hsound sha256 blake2b hblock)
  · intro hbinds sha256 blake2b _
    exact blockSound_of_bindsCommitment hchosen hcount hbinds sha256 blake2b

end Read

/-! ## Two clients -/

theorem quietCommitment_length :
    38 ≤ (ascii "6a24aa21a9ed" ++ List.replicate 64 48).length ∧
      (ascii "6a24aa21a9ed" ++ List.replicate 64 48).length ≤ 95 := by
  decide

/-- A template without transactions. -/
def quietTemplate : BlockTemplate where
  height := 900000
  coinbasevalue := 312500000
  sizelimit := 4000000
  weightlimit := 4000000
  previousblockhashBin := List.replicate 32 7
  defaultWitnessCommitment := ascii "6a24aa21a9ed" ++ List.replicate 64 48
  headerVersion := 2
  blake2bHeadline := []
  txnTotalWeight := 0
  txnTotalSize := 0
  version := 0x20000000
  bitsUint := 0x1d00ffff
  curtime := 1700000000
  mintime := 1699990000
  headerTransactionCount := 0
  headerFlags := 0
  headerTimeOffset := 0
  xorKeyMaskClearBits := 0
  xorKey := List.replicate 16 0
  mergeMiningRhs := List.replicate 32 0
  txns := []
  coinbasevalue_ne := sampleValue_ne
  witnessCommitment_length := quietCommitment_length
  headline_length := noHeadline_length
  txnTotalSize_lt := noTransactions_lt
  prevhash_length := by decide
  xorKey_length := by decide
  mergeMiningRhs_length := length_blank
  txns_length_le := by decide
  txnTotalSize_eq := by decide

/-- A job that splits the reward between one miner and the pool. -/
def splitCoinbaserJob : CoinbaserJob where
  blockTemplate := quietTemplate.toDatumTemplate
  enPrefix := 0
  carouselSupplier := .copy []
  carouselSupplierName := []
  poolAddrScript := 0x00 :: 0x14 :: List.replicate 20 1
  availableCoinbaseOutputs :=
    [{ outputScript := 0x00 :: 0x14 :: List.replicate 20 2, valueSats := 300000000 }]

def splitCoinbase (type : Fin 6) : StratumCoinbase :=
  let input := [3, 0xa0, 0xbb, 0x0d, 1, 0, 3, 0xff, 0, 0]
  if type = 0 then emptyCoinbase splitCoinbaserJob input
  else typedCoinbase splitCoinbaserJob input type

/-- It commits to the coinbase with the split, in slot 0. -/
def splitJob : StratumJob where
  jobId := ascii "6553f10000c0de"
  blockTemplate := quietTemplate
  blockTarget := uniformHash 0
  coinbase := splitCoinbase
  subsidyOnlyCoinbase := splitCoinbase 0
  blake2bCoinbaseIndex := 4
  carouselSupplier := []
  tsms := 1700000000000
  isStalePrevblock := false
  isBlake2b := by decide
  coinbase_start := by decide +kernel
  coinbase_unmarked := by decide +kernel
  subsidyOnly_unmarked := by decide +kernel

def splitJobs (i : Fin 256) : Option StratumJob := if i = 0 then some splitJob else none

/-- A client without the extensions. -/
def plainMiner : MinerData where
  sidInv := 1
  userScript := none
  extensionVersionRolling := false
  extensionVersionRollingMask := 0
  lastSentDiff := 1
  stratumJobDiffs := fun _ => 1
  stratumJobTargets := fun _ => uniformHash 0xff
  quickdiffValue := 1
  quickdiffTarget := uniformHash 0xff

def poolOnlyConfig : LottoConfig where
  miningBlake2bPersonalLotto := false
  miningBlake2bTemplate := false
  miningBlake2bTemplateCarousel := false
  miningTemplateSupplierAddress := []
  miningTemplateSupplierBps := 0
  miningTemplatePoolBps := 90
  share_left := by decide

/-- A share for that job which quotes a coinbase by two digits. -/
def splitParams (coinbaseDigits : String) : Json :=
  .array [.string (ascii "miner"), .string (ascii "6553f10000c0de" ++ ascii coinbaseDigits),
    .string (ascii "0000000000000000"), .string (ascii "6553f100"), .string (ascii "00000000")]

/-- What it asks for. -/
def splitWork (coinbaseIndex : Fin 6) : SubmittedWork where
  jobIndex := 0
  job := splitJob
  quickdiff := false
  emptyWork := false
  bver := 0x20000000
  extranonce := [1, 0, 0, 0, 0, 0, 0, 0, 0, 0, 0, 0]
  coinbase := splitCoinbase coinbaseIndex
  userLotto := false
  ntime := [0x00, 0xf1, 0x53, 0x65, 0, 0, 0, 0]
  nonce := List.replicate 8 0
  extranonce_length := by decide
  ntime_length := by decide
  nonce_length := by decide

theorem readSubmit_split :
    readSubmit (fun _ => none) poolOnlyConfig plainMiner splitJobs (splitParams "04") =
      .ok (splitWork 4) := rfl

theorem readSubmit_poolOnly :
    readSubmit (fun _ => none) poolOnlyConfig plainMiner splitJobs (splitParams "00") =
      .ok (splitWork 0) := rfl

/-- A client that quotes the coinbase it was given. -/
theorem splitWork_alwaysSound :
    readSubmit (fun _ => none) poolOnlyConfig plainMiner splitJobs (splitParams "04") =
      .ok (splitWork 4) ∧ (splitWork 4).AlwaysSound := by
  refine ⟨readSubmit_split, ?_⟩
  apply (alwaysSound_iff_bindsCommitment readSubmit_split (Or.inl rfl)).mpr
  exact Or.inr ⟨rfl, fun hempty => Bool.noConfusion hempty⟩

/-- A client that quotes the pool's coinbase for the same job: the block it finds
    has another hash than the share. -/
theorem poolOnlyWork_not_alwaysSound :
    readSubmit (fun _ => none) poolOnlyConfig plainMiner splitJobs (splitParams "00") =
      .ok (splitWork 0) ∧ ¬ (splitWork 0).AlwaysSound := by
  refine ⟨readSubmit_poolOnly, fun hsound => ?_⟩
  have hbinds : ¬ (splitWork 0).BindsCommitment := by
    rintro (hlotto | ⟨htxn, -⟩)
    · exact Bool.noConfusion hlotto
    · exact absurd htxn (by decide +kernel)
  obtain ⟨sha256, blake2b, hblock, hnot⟩ :=
    exists_not_blockSound (chosen_of_readSubmit readSubmit_poolOnly) hbinds
  exact hnot (hsound sha256 blake2b hblock)

end ChirpGateway
