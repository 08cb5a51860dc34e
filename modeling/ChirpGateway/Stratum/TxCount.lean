import ChirpGateway.Stratum.Block
import ChirpGateway.Template.Parser
import ChirpGateway.Template.Swap

/-!
# The transaction count of a block

Four places state how many transactions a block has: the header's commitment, the
header as it is written, the count in front of the transactions, and the
transactions themselves (`datum_stratum.c:2265-2283`, `2549-2597`). The reply's
`transaction_count` (`datum_blocktemplates.c:212-215`) goes into the first two.
-/

namespace ChirpGateway

open Bytes

/-- The reply a template is made of: with template mode on, a supplier's
    transactions are put in first. -/
def suppliedReply (gbt : Json) : Option Json → Json
  | none => gbt
  | some sup => (swap gbt sup).2

/-- The number of transactions that are kept of the list that was put in. -/
def keptCount (reply : Json) : Nat :=
  min maxTemplateTxns ((reply.arrayAt "transactions").getD []).length

/-- The count the node's reply states, if any, is the one of the block. -/
def StatesBlockCount (gbt : Json) (sup : Option Json) : Prop :=
  namesHeader gbt = false ∨ transactionCountOf gbt = 0 ∨
    (transactionCountOf gbt).toNat = keptCount (suppliedReply gbt sup) + 1

/-- All four counts of the block of a share are one. -/
structure SubmittedWork.CountsAgree (work : SubmittedWork) : Prop where
  committed : ∀ sha256 blake2b, work.job.blockTemplate.committedTxcount.toNat =
    (work.assembleBlock sha256 blake2b).transactions.length + 1
  serialized : ∀ sha256 blake2b, ∃ header,
    readHeader (work.assembleBlock sha256 blake2b).header = some header ∧
      header.txcount.toNat = (work.assembleBlock sha256 blake2b).transactions.length + 1
  announced : ∀ sha256 blake2b, (work.assembleBlock sha256 blake2b).txCount =
    (work.assembleBlock sha256 blake2b).transactions.length + 1

/-- A swap leaves what is said of the header. -/
theorem objectGet_suppliedReply {gbt : Json} {sup : Option Json} {name : String}
    (htransactions : name ≠ "transactions") (hcommitment : name ≠ "default_witness_commitment")
    (hvalue : name ≠ "coinbasevalue") :
    (suppliedReply gbt sup).objectGet name = gbt.objectGet name := by
  cases sup with
  | none => rfl
  | some sup =>
    by_cases happlies : ∃ supTxs, Applies gbt sup supTxs
    · obtain ⟨supTxs, happlies⟩ := happlies
      obtain ⟨gbt', hswap, hresult⟩ := swap_of_applies happlies
      show (swap gbt sup).2.objectGet name = _
      rw [hswap]
      exact hresult.others name htransactions hcommitment hvalue
    · show (swap gbt sup).2.objectGet name = _
      rw [swap_of_not_applies (not_exists.mp happlies)]

theorem namesHeader_suppliedReply (gbt : Json) (sup : Option Json) :
    namesHeader (suppliedReply gbt sup) = namesHeader gbt := by
  unfold namesHeader
  rw [objectGet_suppliedReply (by decide) (by decide) (by decide),
    objectGet_suppliedReply (by decide) (by decide) (by decide)]

theorem transactionCountOf_suppliedReply (gbt : Json) (sup : Option Json) :
    transactionCountOf (suppliedReply gbt sup) = transactionCountOf gbt := by
  unfold transactionCountOf
  rw [objectGet_suppliedReply (by decide) (by decide) (by decide)]

/-- The header's count of an accepted reply with a header of version 2. -/
theorem headerTransactionCount_of_parseHeaderFields {cfg : ParserConfig} {reply : Json}
    {header : HeaderFields} (h : parseHeaderFields cfg reply = some header)
    (hversion : header.headerVersion ≠ 0) :
    header.headerTransactionCount = transactionCountOf reply := by
  obtain ⟨⟨haveBlake2b, haveSha256d⟩, _, h⟩ := Option.bind_eq_some_iff.mp h
  obtain ⟨version, _, h⟩ := Option.bind_eq_some_iff.mp h
  by_cases hzero : version = 0
  · rw [if_pos hzero] at h
    cases haveSha256d with
    | true => exact absurd (congrArg HeaderFields.headerVersion (Option.some.inj h)).symm hversion
    | false => cases h
  · rw [if_neg hzero] at h
    obtain ⟨flags, _, h⟩ := Option.bind_eq_some_iff.mp h
    rw [← Option.some.inj h]

theorem headerTransactionCount_of_gbtHeader {cfg : ParserConfig} {reply : Json}
    {version version' : UInt32} {header : HeaderFields}
    (h : gbtHeader cfg reply version = some (header, version'))
    (hversion : header.headerVersion ≠ 0) :
    header.headerTransactionCount = if namesHeader reply then transactionCountOf reply else 0 := by
  unfold gbtHeader at h
  by_cases hnames : namesHeader reply = true
  · rw [if_pos hnames] at h ⊢
    obtain ⟨fields, hfields, h⟩ := Option.map_eq_some_iff.mp h
    obtain rfl : fields = header := congrArg Prod.fst h
    exact headerTransactionCount_of_parseHeaderFields hfields hversion
  · rw [if_neg hnames] at h ⊢
    obtain rfl : impliedHeader cfg reply version = header :=
      congrArg Prod.fst (Option.some.inj h)
    exact headerTransactionCount_impliedHeader cfg reply version

/-- What the template of an accepted reply says of the count. -/
theorem template_counts {cfg : ParserConfig} {reply : Json} {tdata : GbtTemplate}
    (h : gbtParser cfg reply = some tdata) (hversion : tdata.headerVersion ≥ 2) :
    tdata.headerTransactionCount =
        (if namesHeader reply then transactionCountOf reply else 0) ∧
      tdata.txns.length = keptCount reply := by
  obtain ⟨numbers, header, version, texts, read, _, hheader, _, _, rfl⟩ :=
    gbtParser_eq_some_iff.mp h
  constructor
  · refine headerTransactionCount_of_gbtHeader hheader ?_
    rintro hzero
    have hnot : ¬ (0 : UInt32) ≥ 2 := by decide
    exact hnot (hzero ▸ hversion)
  · show (read.txns.map _).length = _
    rw [List.length_map, length_of_readTxns read.txns_eq, keptCount, read.txs_eq, Option.getD_some]

namespace SubmittedWork

variable {work : SubmittedWork}

/-- Without a stated count the block's own is used; a stated one has to be it. -/
theorem countsAgree_iff (hfull : work.emptyWork = false) :
    work.CountsAgree ↔ work.job.blockTemplate.headerTransactionCount = 0 ∨
      work.job.blockTemplate.headerTransactionCount.toNat =
        work.job.blockTemplate.txns.length + 1 := by
  have hmax := work.job.blockTemplate.txns_length_le
  have hcount : ∀ sha256 blake2b, (work.assembleBlock sha256 blake2b).transactions.length =
      work.job.blockTemplate.txns.length := by
    intro sha256 blake2b
    show work.blockTransactions.length = _
    rw [blockTransactions, hfull, if_neg Bool.false_ne_true]
  have hannounced : ∀ sha256 blake2b, (work.assembleBlock sha256 blake2b).txCount =
      work.job.blockTemplate.txns.length + 1 := by
    intro sha256 blake2b
    show (if work.emptyWork then 1 else _) = _
    rw [hfull, if_neg Bool.false_ne_true]
  have hread : ∀ sha256 blake2b, ∃ header,
      readHeader (work.assembleBlock sha256 blake2b).header = some header ∧
        header.txcount = work.blockTxcount :=
    fun sha256 blake2b => ⟨_,
      readHeader_serializeBlockHeader (work.blockHeader_sized sha256 blake2b), rfl⟩
  by_cases hzero : work.job.blockTemplate.headerTransactionCount = 0
  · refine iff_of_true ⟨?_, ?_, ?_⟩ (Or.inl hzero)
    · intro sha256 blake2b
      rw [hcount, BlockTemplate.committedTxcount, if_neg (not_not.mpr hzero),
        UInt32.toNat_ofNat_of_lt' (by rw [UInt32.size]; omega)]
    · intro sha256 blake2b
      obtain ⟨header, hheader, htxcount⟩ := hread sha256 blake2b
      refine ⟨header, hheader, ?_⟩
      rw [hcount, htxcount, blockTxcount, if_neg (not_not.mpr hzero), hfull,
        if_neg Bool.false_ne_true, UInt16.toNat_ofNat_of_lt' (by rw [UInt16.size]; omega)]
    · intro sha256 blake2b
      rw [hcount, hannounced]
  · have hcommitted : work.job.blockTemplate.committedTxcount =
        work.job.blockTemplate.headerTransactionCount := if_pos hzero
    constructor
    · intro hagree
      have h := hagree.committed (fun _ => uniformHash 0) (fun _ => uniformHash 0)
      rw [hcommitted, hcount] at h
      exact Or.inr h
    · rintro (h | hstated)
      · exact absurd h hzero
      · refine ⟨?_, ?_, ?_⟩
        · intro sha256 blake2b
          rw [hcount, hcommitted, hstated]
        · intro sha256 blake2b
          obtain ⟨header, hheader, htxcount⟩ := hread sha256 blake2b
          refine ⟨header, hheader, ?_⟩
          rw [hcount, htxcount, blockTxcount, if_pos hzero, UInt32.toNat_toUInt16, hstated]
          omega
        · intro sha256 blake2b
          rw [hcount, hannounced]

end SubmittedWork

/-- The counts in the block of a share agree exactly when the node's reply states
    none, or the one of the transactions that are kept. -/
theorem countsAgree_of_reply_iff {cfg : ParserConfig} {gbt : Json} {sup : Option Json}
    {tdata : GbtTemplate} (hparse : gbtParser cfg (suppliedReply gbt sup) = some tdata)
    {work : SubmittedWork} (hjob : work.job.blockTemplate = tdata.toBlockTemplate)
    (hfull : work.emptyWork = false) : work.CountsAgree ↔ StatesBlockCount gbt sup := by
  have hversion : tdata.headerVersion ≥ 2 := by
    have hversion := work.job.isBlake2b
    rwa [hjob] at hversion
  obtain ⟨hcount, hkept⟩ := template_counts hparse hversion
  rw [namesHeader_suppliedReply, transactionCountOf_suppliedReply] at hcount
  rw [SubmittedWork.countsAgree_iff hfull, hjob, hcount, hkept, StatesBlockCount]
  by_cases hnames : namesHeader gbt = true
  · rw [if_pos hnames, hnames]
    simp only [Bool.true_eq_false, false_or]
  · rw [if_neg hnames]
    exact iff_of_true (Or.inl rfl) (Or.inl (Bool.not_eq_true _ ▸ hnames))

/-! ## A swap under a stated count -/

/-- A node's reply without transactions, which states the count of its block. -/
def countingReply : Json :=
  .object
    [("height", .integer 900000), ("coinbasevalue", .integer 312500000),
      ("mintime", .integer 1), ("sigoplimit", .integer 80000), ("curtime", .integer 1700000000),
      ("sizelimit", .integer 4000000), ("weightlimit", .integer 4000000),
      ("version", .integer 0x20000000), ("header_version", .integer 2),
      ("transaction_count", .integer 1), ("bits", .string (ascii "1d00ffff")),
      ("previousblockhash", .string (List.replicate 64 0x30)),
      ("target", .string (List.replicate 64 0x30)),
      ("default_witness_commitment", .string (List.replicate 76 0x30)),
      ("transactions", .array [])]

/-- A supplier at that tip with one transaction. -/
def oneTxOffer : Json :=
  .object
    [("previousblockhash", .string (List.replicate 64 0x30)),
      ("default_witness_commitment", .string (List.replicate 76 0x31)),
      ("transactions", .array
        [.object [("txid", .string (List.replicate 64 0x32)), ("data", .string (ascii "01")),
            ("fee", .integer 300)]])]

/-- A share for a job on a template. -/
def workOn (tdata : GbtTemplate) (hversion : tdata.headerVersion ≥ 2) : SubmittedWork :=
  { splitWork 4 with
    job := { splitJob with blockTemplate := tdata.toBlockTemplate, isBlake2b := hversion } }

/-- The version, the stated count and the number of transactions of the template. -/
def templateCounts (sup : Option Json) : Option (UInt32 × UInt32 × Nat) :=
  (gbtParser blake2bParser (suppliedReply countingReply sup)).map fun tdata =>
    (tdata.headerVersion, tdata.headerTransactionCount, tdata.txns.length)

theorem templateCounts_own : templateCounts none = some (2, 1, 0) := by
  decide +kernel

theorem templateCounts_supplied : templateCounts (some oneTxOffer) = some (2, 1, 1) := by
  decide +kernel

/-- The node's own transactions: the stated count is the block's. -/
theorem countsAgree_own : ∃ (tdata : GbtTemplate) (work : SubmittedWork),
    gbtParser blake2bParser (suppliedReply countingReply none) = some tdata ∧
      work.job.blockTemplate = tdata.toBlockTemplate ∧ work.emptyWork = false ∧
      work.CountsAgree := by
  obtain ⟨tdata, hparse, hcounts⟩ := Option.map_eq_some_iff.mp templateCounts_own
  have hversion : tdata.headerVersion ≥ 2 := by
    rw [show tdata.headerVersion = 2 from congrArg Prod.fst hcounts]
    decide
  refine ⟨tdata, workOn tdata hversion, hparse, rfl, rfl, ?_⟩
  exact (countsAgree_of_reply_iff hparse rfl rfl).mpr (Or.inr (Or.inr (by decide +kernel)))

/-- A supplier's transaction: the header commits to one, the block has two. -/
theorem countsDisagree_supplied : ∃ (tdata : GbtTemplate) (work : SubmittedWork),
    gbtParser blake2bParser (suppliedReply countingReply (some oneTxOffer)) = some tdata ∧
      work.job.blockTemplate = tdata.toBlockTemplate ∧ work.emptyWork = false ∧
      ¬ work.CountsAgree := by
  obtain ⟨tdata, hparse, hcounts⟩ := Option.map_eq_some_iff.mp templateCounts_supplied
  have hversion : tdata.headerVersion ≥ 2 := by
    rw [show tdata.headerVersion = 2 from congrArg Prod.fst hcounts]
    decide
  have hstated : tdata.headerTransactionCount = 1 := congrArg (fun c => c.2.1) hcounts
  have hlength : tdata.txns.length = 1 := congrArg (fun c => c.2.2) hcounts
  refine ⟨tdata, workOn tdata hversion, hparse, rfl, rfl, fun hagree => ?_⟩
  rcases (SubmittedWork.countsAgree_iff rfl).mp hagree with hzero | hcount
  · exact absurd (hstated.symm.trans hzero) (by decide)
  · have hone : tdata.headerTransactionCount.toNat = 1 + 1 := hlength ▸ hcount
    rw [hstated] at hone
    exact absurd hone (by decide)

end ChirpGateway
