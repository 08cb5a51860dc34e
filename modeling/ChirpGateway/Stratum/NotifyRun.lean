import ChirpGateway.Coinbase.Room
import ChirpGateway.Stratum.ShareRun
import ChirpGateway.Stratum.Vardiff
import ChirpGateway.Template.Target
import Mathlib.Data.UInt

/-!
# What a client is sent and what its shares are hashed over

A job is published before its coinbases are final: `update_stratum_job` commits to
the first of them (`datum_stratum.c:2320-2450`), and the coinbaser thread rewrites
them and the commitment later (`datum_coinbaser.c:794-799`), under the same job id.
Here are the runs of jobs, notifies (`datum_stratum.c:1648-1812`), authorizations
(`datum_stratum.c:1587-1640`) and that thread.
-/

namespace ChirpGateway

open Bytes Transition Wire

/-! ## The id of a job -/

/-- `job_id`: the time, the next place in the ring, and the index under
    `STRATUM_JOB_INDEX_XOR`. -/
def jobIdBytes (time : UInt32) (next : UInt8) (slot : Fin 256) : List UInt8 :=
  (leBytes 4 time.toNat).reverse ++ next :: (leBytes 2 (slot.val ^^^ 0xc0de)).reverse

section Ids

variable {time : UInt32} {next : UInt8} {slot : Fin 256} {cbselect : UInt8}

theorem length_jobIdBytes : (jobIdBytes time next slot).length = 7 := by
  simp [jobIdBytes]

/-- The id as it is quoted, with the coinbase a notify adds. -/
theorem encode_quoted : Hex.encode (jobIdBytes time next slot) ++ Hex.encodeByte cbselect =
    Hex.encode (jobIdBytes time next slot ++ [cbselect]) := by
  simp [Hex.encode, List.flatMap_append]

theorem length_encode_quoted :
    (Hex.encode (jobIdBytes time next slot) ++ Hex.encodeByte cbselect).length = 16 := by
  rw [encode_quoted, Hex.length_encode, List.length_append, length_jobIdBytes]
  rfl

/-- The bytes at the places of the index. -/
theorem getElem_jobIdBytes :
    (jobIdBytes time next slot)[5]? = some (UInt8.ofNat ((slot.val ^^^ 0xc0de) / 256)) ∧
      (jobIdBytes time next slot)[6]? = some (UInt8.ofNat (slot.val ^^^ 0xc0de)) := by
  constructor <;> rfl

end Ids

/-! ## Coinbases that are completed -/

/-- `generate_coinbase_txns_for_stratum_job` on a job, with what it reads besides
    the template. -/
def StratumJob.completed (job : StratumJob) (tags : CoinbaseTags) (filled : CoinbaserJob) :
    Option StratumJob :=
  (generateCoinbaseTxns tags
    { filled with blockTemplate := job.blockTemplate.toDatumTemplate }).pmap
    (fun set hstart =>
      { job with
        coinbase := set.coinbase
        blake2bCoinbaseIndex := set.blake2bCoinbaseIndex
        coinbase_start := hstart 0
        coinbase_unmarked := fun type => alreadyWitnessed_of_cbStart (hstart type) _ })
    fun _ hset => cbStart_isPrefix_coinbase hset

/-! ## The system -/

/-- A `mining.notify`: to whom, for which job, what a miner hashes and quotes of it,
    and the target of the difficulty sent before it. -/
structure SentNotify (ι : Type) where
  client : ι
  slot : Fin 256
  quickdiff : Bool
  /-- without the mark of a quick change of difficulty -/
  jobId : List UInt8
  coinb1 : List UInt8
  target : Hash32

/-- The jobs, the clients, and the notifies for jobs that are still in their
    slots. -/
structure NotifyState (ι : Type) where
  jobs : Fin 256 → Option StratumJob
  clients : ι → MinerData
  sent : List (SentNotify ι)

inductive NotifyEvent (ι : Type) where
  /-- `update_stratum_job` -/
  | newJob (slot : Fin 256) (job : StratumJob) (newBlock : Bool) (time : UInt32) (next : UInt8)
  /-- the coinbaser thread is done with a job -/
  | complete (slot : Fin 256) (tags : CoinbaseTags) (filled : CoinbaserJob)
  /-- `send_mining_notify`, with the difficulty sent before it -/
  | notify (client : ι) (slot : Fin 256) (quickdiff : Bool) (diff : UInt64)
  | authorize (client : ι) (username : List UInt8)
  /-- `mining.subscribe` and `mining.configure` -/
  | configure (client : ι) (sidInv : UInt32) (versionRolling : Bool) (mask : UInt32)

section Notify

variable (decode : List UInt8 → Option (List UInt8)) (lotto : LottoConfig)
variable (sha256 : List UInt8 → Hash32)

/-- The commitment that is sent for a job: over the miner's own coinbase, or the
    job's. -/
def notifyCommitment (job : StratumJob) (userScript : Option (List UInt8)) : Hash32 :=
  match lottoCoinbase decode lotto job userScript with
  | some coinbase => commitForCoinbase sha256 job coinbase
  | none => blake2bCommitment sha256 job

/-- `user_script` after `client_mining_authorize`: the address stands before the
    name of a worker. -/
def authorizedScript (username : List UInt8) : Option (List UInt8) :=
  if lotto.miningBlake2bPersonalLotto then
    (decode ((username.takeWhile fun ch => ch ≠ 46 && ch ≠ 95).take 127)).filter
      fun script => 0 < script.length
  else
    none

/-- The targets of a client after a notify. -/
def MinerData.noteTarget (m : MinerData) (slot : Fin 256) (quickdiff : Bool) (diff : UInt64) :
    MinerData :=
  let target := shareTarget true diff
  if quickdiff then
    { m with lastSentDiff := diff, quickdiffValue := diff, quickdiffTarget := target }
  else
    { m with
      lastSentDiff := diff
      stratumJobDiffs := Function.update m.stratumJobDiffs slot diff
      stratumJobTargets := Function.update m.stratumJobTargets slot target }

/-- The target a client has at a place. -/
def MinerData.targetAt (m : MinerData) : Option (Fin 256) → Hash32
  | none => m.quickdiffTarget
  | some slot => m.stratumJobTargets slot

/-- The place the target of a notify was stored at. -/
def SentNotify.key {ι : Type} (note : SentNotify ι) : Option (Fin 256) :=
  noteKey note.slot note.quickdiff

namespace NotifyState

variable {ι : Type} [DecidableEq ι] (s : NotifyState ι)

/-- A job takes the place of another, which nobody can quote any more. -/
def putJob (slot : Fin 256) (job : StratumJob) (newBlock : Bool) : NotifyState ι :=
  let others := if newBlock then fun i => (s.jobs i).map StratumJob.markStale else s.jobs
  { s with
    jobs := Function.update others slot (some job)
    sent := s.sent.filter fun note => note.slot ≠ slot }

/-- `send_mining_notify`. -/
def sendNotify (client : ι) (slot : Fin 256) (quickdiff : Bool) (diff : UInt64)
    (job : StratumJob) : SentNotify ι where
  client
  slot
  quickdiff
  jobId := job.jobId ++ Hex.encodeByte (UInt8.ofNat job.blake2bCoinbaseIndex)
  coinb1 := siaCoinb1 (notifyCommitment decode lotto sha256 job (s.clients client).userScript)
  target := shareTarget true diff

def step : NotifyEvent ι → Option (NotifyState ι)
  | .newJob slot job newBlock time next =>
    some (s.putJob slot
      { job with
        jobId := Hex.encode (jobIdBytes time next slot)
        blake2bCoinbaseIndex := 0
        isStalePrevblock := false } newBlock)
  | .complete slot tags filled =>
    (s.jobs slot).bind fun job => (job.completed tags filled).map fun completed =>
      { s with jobs := Function.update s.jobs slot (some completed) }
  | .notify client slot quickdiff diff =>
    (s.jobs slot).map fun job =>
      { s with
        clients := Function.update s.clients client
          ((s.clients client).noteTarget slot quickdiff diff)
        sent := s.sendNotify decode lotto sha256 client slot quickdiff diff job :: s.sent }
  | .authorize client username =>
    some { s with
      clients := Function.update s.clients client
        { s.clients client with userScript := authorizedScript decode lotto username } }
  | .configure client sidInv versionRolling mask =>
    some { s with
      clients := Function.update s.clients client
        { s.clients client with
          sidInv
          extensionVersionRolling := versionRolling
          extensionVersionRollingMask := mask } }

/-- No jobs, and nothing sent. -/
def Starts : Prop :=
  (∀ slot, s.jobs slot = none) ∧ s.sent = []

end NotifyState

/-- The runs of jobs, notifies and the coinbaser thread. -/
def notifySystem (ι : Type) [DecidableEq ι] : System (NotifyState ι) (NotifyEvent ι) where
  step s event := s.step decode lotto sha256 event

/-! ## A share and its notify -/

variable {ι : Type}

/-- A submit for a notify: it quotes the id, as it was sent or with the mark of a quick
    change of difficulty. -/
def SentNotify.QuotedBy (note : SentNotify ι) (params : Json) : Prop :=
  stringParam params 1 = some note.jobId ∨ stringParam params 1 = some (81 :: note.jobId)

variable (blake2b : List UInt8 → Hash32)

/-- The work root a miner computes from what it was sent. -/
def SentNotify.workRoot (note : SentNotify ι) (extranonce : List UInt8) : Hash32 :=
  blake2b (0 :: (note.coinb1 ++ extranonce))

/-- The hash of the work a miner did for a notify. -/
def SentNotify.shareHash (note : SentNotify ι) (work : SubmittedWork) : List UInt8 :=
  let tmpl := work.job.blockTemplate
  powHashLe sha256 blake2b
    (workHeader sha256 tmpl.previousblockhashBin work.nonce work.ntime
      (note.workRoot blake2b work.extranonce))
    tmpl.xorKey tmpl.xorKeyMaskClearBits

/-- A submit is hashed over the commitment that was sent, and with the mark it was
    sent with what meets the target that was sent is no high hash. -/
structure SentNotify.Agrees (note : SentNotify ι) (m : MinerData) (work : SubmittedWork) :
    Prop where
  coinb1 : siaCoinb1 (work.commitment sha256) = note.coinb1
  not_highHash : work.quickdiff = note.quickdiff →
    compareHashes (note.shareHash sha256 blake2b work) note.target.bytes ≤ 0 →
    ∀ config loopTsms,
      checkShare config loopTsms m work (work.shareHash sha256 blake2b) ≠ .error .highHash

/-- Every submit that quotes a notify agrees with it, while its job is not stale. -/
def NotifyState.HashedAsSent (s : NotifyState ι) : Prop :=
  ∀ note ∈ s.sent, ∀ params, note.QuotedBy params → ∀ work,
    readSubmit decode lotto (s.clients note.client) s.jobs params = .ok work →
    work.job.isStalePrevblock = false →
      note.Agrees sha256 blake2b (s.clients note.client) work

/-! ## The condition -/

/-- The coinbase a client works on: its own, or the one the job commits to. -/
def StratumJob.sentCoinbase (job : StratumJob) (userScript : Option (List UInt8)) : List UInt8 :=
  ((lottoCoinbase decode lotto job userScript).getD job.committedCoinbase).txn zeroExtranonce

/-- Where a job is completed, or an address authorized, the coinbases that clients
    were sent before come out as they were; and a notify stores no target below one
    that was sent before and is kept at the same place. -/
def NotifyState.KeepsSent (s : NotifyState ι) : NotifyEvent ι → Prop
  | .complete slot tags filled => ∀ note ∈ s.sent, note.slot = slot →
      ∀ job, s.jobs slot = some job →
        ∀ completed, job.completed tags filled = some completed →
        completed.sentCoinbase decode lotto (s.clients note.client).userScript =
          job.sentCoinbase decode lotto (s.clients note.client).userScript
  | .authorize client username => ∀ note ∈ s.sent, note.client = client →
      ∀ job, s.jobs note.slot = some job →
        job.sentCoinbase decode lotto (authorizedScript decode lotto username) =
          job.sentCoinbase decode lotto (s.clients client).userScript
  | .notify client slot quickdiff diff => ∀ note ∈ s.sent, note.client = client →
      note.key = noteKey slot quickdiff →
        compareHashes note.target.bytes (shareTarget true diff).bytes ≤ 0
  | _ => True

/-! ## What a run keeps -/

namespace QuotedJob

variable {time : UInt32} {next : UInt8} {slot : Fin 256} {cbselect : UInt8}
  {jobs : Fin 256 → Option StratumJob} {job : StratumJob}

/-- An id leads back to its slot. -/
theorem jobIndex_quoted (quoted : QuotedJob)
    (htext : quoted.text = Hex.encode (jobIdBytes time next slot) ++ Hex.encodeByte cbselect) :
    quoted.jobIndex = slot := by
  obtain ⟨hhigh, hlow⟩ := @getElem_jobIdBytes time next slot
  have hpair {i : Nat} {byte : UInt8} (hbyte : (jobIdBytes time next slot)[i]? = some byte) :
      quoted.pair (2 * i) = byte.toNat := by
    have hlt : i < (jobIdBytes time next slot).length := (List.getElem?_eq_some_iff.mp hbyte).1
    rw [pair, htext, encode_quoted, Hex.lookup_encode]
    rw [List.getElem?_append_left hlt, hbyte]
  have hall : ∀ slot : Fin 256,
      ((UInt8.ofNat ((slot.val ^^^ 0xc0de) / 256)).toNat * 256 +
        (UInt8.ofNat (slot.val ^^^ 0xc0de)).toNat) ^^^ 0xc0de = slot.val := by
    decide +kernel
  rw [jobIndex, hpair hhigh, hpair hlow]
  exact hall slot

theorem findJob_quoted (quoted : QuotedJob)
    (htext : quoted.text = Hex.encode (jobIdBytes time next slot) ++ Hex.encodeByte cbselect)
    (hjob : jobs slot = some job) (hid : job.jobId = Hex.encode (jobIdBytes time next slot)) :
    quoted.findJob jobs = some (slot, job) := by
  have hindex := jobIndex_quoted quoted htext
  have hsame : job.jobId.take 8 = quoted.text.take 8 := by
    have hlen : 8 ≤ (Hex.encode (jobIdBytes time next slot)).length := by
      rw [Hex.length_encode, length_jobIdBytes]
      decide
    rw [hid, htext, List.take_append_of_le_length hlen]
  unfold findJob
  simp only [hindex, Fin.is_lt, dite_true, Fin.eta, hjob, Option.bind_some, if_pos hsame]

end QuotedJob

section Run

variable {decode lotto sha256 blake2b} {s s' : NotifyState ι}
  {event : NotifyEvent ι} {note : SentNotify ι}

/-- What is kept of a note: its job is there, what was sent is what would be sent, and
    the target at its place is not below the one that was sent. -/
structure SentNotify.Current (decode : List UInt8 → Option (List UInt8)) (lotto : LottoConfig)
    (sha256 : List UInt8 → Hash32) (note : SentNotify ι) (job : StratumJob) (m : MinerData) :
    Prop where
  jobId : ∃ cbselect, note.jobId = job.jobId ++ Hex.encodeByte cbselect
  coinb1 : note.coinb1 = siaCoinb1 (notifyCommitment decode lotto sha256 job m.userScript)
  target : compareHashes note.target.bytes (m.targetAt note.key).bytes ≤ 0

variable (decode lotto sha256 s) in
/-- The invariant. -/
structure NotifyState.Kept : Prop where
  named : ∀ slot job, s.jobs slot = some job →
    ∃ time next, job.jobId = Hex.encode (jobIdBytes time next slot)
  current : ∀ note ∈ s.sent, ∃ job, s.jobs note.slot = some job ∧
    note.Current decode lotto sha256 job (s.clients note.client)

namespace NotifyState

theorem kept_of_starts (h : s.Starts) : s.Kept decode lotto sha256 := by
  obtain ⟨hjobs, hsent⟩ := h
  constructor
  · intro slot job hjob
    rw [hjobs slot] at hjob
    cases hjob
  · intro note hnote
    rw [hsent] at hnote
    cases hnote

theorem Kept.newJob (h : s.Kept decode lotto sha256) {slot : Fin 256} {job : StratumJob}
    {newBlock : Bool} (hid : ∃ time next, job.jobId = Hex.encode (jobIdBytes time next slot)) :
    (s.putJob slot job newBlock).Kept decode lotto sha256 := by
  constructor
  · intro other found hfound
    unfold putJob at hfound
    dsimp only at hfound
    by_cases hother : other = slot
    · subst hother
      rw [Function.update_self] at hfound
      obtain rfl := Option.some.inj hfound
      exact hid
    · rw [Function.update_of_ne hother] at hfound
      cases newBlock with
      | false => exact h.named other found hfound
      | true =>
        obtain ⟨old, hold, rfl⟩ := Option.map_eq_some_iff.mp hfound
        exact h.named other old hold
  · intro note hnote
    obtain ⟨hmem, hother⟩ := List.mem_filter.mp hnote
    have hne : note.slot ≠ slot := of_decide_eq_true hother
    obtain ⟨old, hold, hcurrent⟩ := h.current note hmem
    unfold putJob
    dsimp only
    rw [Function.update_of_ne hne]
    cases newBlock with
    | false => exact ⟨old, hold, hcurrent⟩
    | true =>
      rw [if_pos rfl, hold]
      exact ⟨old.markStale, rfl, hcurrent.jobId, hcurrent.coinb1, hcurrent.target⟩

/-- What a completed job keeps: its id and its template. -/
theorem completed_eq {job completed : StratumJob} {tags : CoinbaseTags} {filled : CoinbaserJob}
    (h : job.completed tags filled = some completed) :
    completed.jobId = job.jobId ∧ completed.blockTemplate = job.blockTemplate ∧
      completed.carouselSupplier = job.carouselSupplier := by
  obtain ⟨set, -, -, rfl⟩ := Option.pmap_eq_some_iff.mp h
  exact ⟨rfl, rfl, rfl⟩

/-- A commitment depends on the job's template alone, and on the coinbase. -/
theorem notifyCommitment_congr {job other : StratumJob}
    {userScript otherScript : Option (List UInt8)}
    (htmpl : other.blockTemplate = job.blockTemplate)
    (hsent : other.sentCoinbase decode lotto otherScript =
      job.sentCoinbase decode lotto userScript) :
    notifyCommitment decode lotto sha256 other otherScript =
      notifyCommitment decode lotto sha256 job userScript := by
  have hform (job : StratumJob) (script : Option (List UInt8)) :
      notifyCommitment decode lotto sha256 job script =
        commitForCoinbase sha256 job
          ((lottoCoinbase decode lotto job script).getD job.committedCoinbase) := by
    unfold notifyCommitment
    cases lottoCoinbase decode lotto job script <;> rfl
  unfold StratumJob.sentCoinbase at hsent
  simp only [hform, commitForCoinbase, merkleRootCalc, merkleBranches, htmpl, hsent]

theorem Kept.complete (h : s.Kept decode lotto sha256) {slot : Fin 256} {tags : CoinbaseTags}
    {filled : CoinbaserJob} {job completed : StratumJob} (hjob : s.jobs slot = some job)
    (hcompleted : job.completed tags filled = some completed)
    (hcond : s.KeepsSent decode lotto (.complete slot tags filled)) :
    Kept decode lotto sha256 { s with jobs := Function.update s.jobs slot (some completed) } := by
  obtain ⟨hid, htmpl, -⟩ := completed_eq hcompleted
  constructor
  · intro other found hfound
    dsimp only at hfound
    by_cases hother : other = slot
    · subst hother
      rw [Function.update_self] at hfound
      obtain rfl := Option.some.inj hfound
      obtain ⟨time, next, hnamed⟩ := h.named other job hjob
      exact ⟨time, next, hid.trans hnamed⟩
    · rw [Function.update_of_ne hother] at hfound
      exact h.named other found hfound
  · intro note hnote
    obtain ⟨old, hold, ⟨cbselect, hquoted⟩, hcoinb1, htarget⟩ := h.current note hnote
    dsimp only
    by_cases hsame : note.slot = slot
    · rw [hsame] at hold ⊢
      obtain rfl := Option.some.inj (hjob.symm.trans hold)
      have hsent := hcond note hnote hsame job hjob completed hcompleted
      refine ⟨completed, Function.update_self _ _ _, ⟨cbselect, hid ▸ hquoted⟩, ?_,
        htarget⟩
      rw [hcoinb1, notifyCommitment_congr htmpl hsent]
    · rw [Function.update_of_ne hsame]
      exact ⟨old, hold, ⟨cbselect, hquoted⟩, hcoinb1, htarget⟩

/-- The coinbase of one miner depends on the first half of the pool's. -/
theorem lottoCoinbase_congr {job other : StratumJob} {userScript : Option (List UInt8)}
    (htmpl : other.blockTemplate = job.blockTemplate)
    (hsupplier : other.carouselSupplier = job.carouselSupplier)
    (hcoinb1 : (other.coinbase 0).coinb1Bin = (job.coinbase 0).coinb1Bin) :
    lottoCoinbase decode lotto other userScript = lottoCoinbase decode lotto job userScript := by
  have haddress : userSupplierAddress lotto other = userSupplierAddress lotto job := by
    rw [userSupplierAddress, userSupplierAddress, hsupplier]
  have hscript : userSupplierScript decode lotto other = userSupplierScript decode lotto job := by
    rw [userSupplierScript, userSupplierScript, haddress]
  have hlength : userWitnessLength other = userWitnessLength job := by
    simp only [userWitnessLength, htmpl]
  have hwitness : userWitness other = userWitness job := by
    simp only [userWitness, hlength, htmpl]
  have hvalues (feeBps : UInt16) :
      userValues decode lotto other feeBps = userValues decode lotto job feeBps := by
    simp only [userValues, hscript, htmpl]
  have hcoinb2 (userScript feeScript : List UInt8) (feeBps : UInt16) :
      userCoinb2 decode lotto other userScript feeScript feeBps =
        userCoinb2 decode lotto job userScript feeScript feeBps := by
    simp only [userCoinb2, hscript, hlength, hwitness, hvalues]
  simp only [lottoCoinbase, buildUserCoinbase, hcoinb1, hcoinb2]

/-- A client with a coinbase of its own keeps it, where the pool's starts as it
    did. -/
theorem sentCoinbase_of_own {job completed : StratumJob} {tags : CoinbaseTags}
    {filled : CoinbaserJob} {userScript : Option (List UInt8)} {own : StratumCoinbase}
    (h : job.completed tags filled = some completed)
    (hown : lottoCoinbase decode lotto job userScript = some own)
    (hcoinb1 : (completed.coinbase 0).coinb1Bin = (job.coinbase 0).coinb1Bin) :
    completed.sentCoinbase decode lotto userScript = job.sentCoinbase decode lotto userScript := by
  obtain ⟨-, htmpl, hsupplier⟩ := completed_eq h
  unfold StratumJob.sentCoinbase
  rw [lottoCoinbase_congr htmpl hsupplier hcoinb1, hown, Option.getD_some, Option.getD_some]

/-- Without outputs to pay, every coinbase is the one a job is published with. -/
theorem completed_of_noOutputs {job completed : StratumJob} {tags : CoinbaseTags}
    {filled : CoinbaserJob} (h : job.completed tags filled = some completed)
    (hnone : filled.availableCoinbaseOutputs = []) :
    ∃ input,
      generateCoinbaseInput tags job.blockTemplate.toDatumTemplate filled.carouselSupplierName =
        some input ∧
      completed.blake2bCoinbaseIndex = 0 ∧
      completed.coinbase 0 = emptyCoinbase
        { filled with blockTemplate := job.blockTemplate.toDatumTemplate } input.bytes := by
  obtain ⟨set, -, hset, rfl⟩ := Option.pmap_eq_some_iff.mp h
  obtain ⟨input, hinput, rfl⟩ := Option.map_eq_some_iff.mp hset
  refine ⟨input, hinput, ?_, ?_⟩
  · dsimp only
    rw [hnone, List.isEmpty_nil, if_pos rfl]
  · dsimp only
    rw [if_pos (.inr rfl)]

/-- So completing a job then changes nothing for anybody. -/
theorem sentCoinbase_of_noOutputs {job completed : StratumJob} {tags : CoinbaseTags}
    {filled : CoinbaserJob} (userScript : Option (List UInt8))
    (h : job.completed tags filled = some completed)
    (hnone : filled.availableCoinbaseOutputs = [])
    (hfirst : job.blake2bCoinbaseIndex = 0)
    (hbase : ∀ input,
      generateCoinbaseInput tags job.blockTemplate.toDatumTemplate filled.carouselSupplierName =
          some input →
        job.coinbase 0 = emptyCoinbase
          { filled with blockTemplate := job.blockTemplate.toDatumTemplate } input.bytes) :
    completed.sentCoinbase decode lotto userScript = job.sentCoinbase decode lotto userScript := by
  obtain ⟨-, htmpl, hsupplier⟩ := completed_eq h
  obtain ⟨input, hinput, hindex, hzero⟩ := completed_of_noOutputs h hnone
  have hcoinbase : completed.coinbase 0 = job.coinbase 0 := hzero.trans (hbase input hinput).symm
  have hcommitted : completed.committedCoinbase = job.committedCoinbase := by
    rw [StratumJob.committedCoinbase, StratumJob.committedCoinbase, hindex, hfirst, hcoinbase]
  unfold StratumJob.sentCoinbase
  rw [lottoCoinbase_congr htmpl hsupplier (congrArg _ hcoinbase), hcommitted]

theorem userScript_noteTarget (m : MinerData) (slot : Fin 256) (quickdiff : Bool)
    (diff : UInt64) : (m.noteTarget slot quickdiff diff).userScript = m.userScript := by
  unfold MinerData.noteTarget
  split <;> rfl

theorem targetAt_noteTarget (m : MinerData) (slot : Fin 256) (quickdiff : Bool)
    (diff : UInt64) (key : Option (Fin 256)) :
    (m.noteTarget slot quickdiff diff).targetAt key =
      if key = noteKey slot quickdiff then shareTarget true diff else m.targetAt key := by
  cases quickdiff <;> cases key <;>
    simp [MinerData.noteTarget, noteKey, MinerData.targetAt, Function.update_apply]

/-- A note that is current can be added. -/
theorem Kept.addNote (h : s.Kept decode lotto sha256) {job : StratumJob}
    (hjob : s.jobs note.slot = some job)
    (hcurrent : note.Current decode lotto sha256 job (s.clients note.client)) :
    Kept decode lotto sha256 { s with sent := note :: s.sent } := by
  refine ⟨h.named, ?_⟩
  intro other hother
  rcases List.mem_cons.mp hother with rfl | hmem
  · exact ⟨job, hjob, hcurrent⟩
  · exact h.current other hmem

/-- What a quoted id stands for: the job it was sent with, and no empty work. -/
theorem Kept.quoted (h : s.Kept decode lotto sha256) (hnote : note ∈ s.sent) {params : Json}
    (hquoted : note.QuotedBy params) {quoted : QuotedJob} {found : Fin 256 × StratumJob}
    (hread : (stringParam params 1).bind quotedJob = some quoted)
    (hfound : quoted.findJob s.jobs = some found) :
    quoted.emptyWork = false ∧ found.1 = note.slot ∧
      note.Current decode lotto sha256 found.2 (s.clients note.client) := by
  obtain ⟨job, hjob, hcurrent⟩ := h.current note hnote
  obtain ⟨time, next, hnamed⟩ := h.named note.slot job hjob
  obtain ⟨cbselect, hid⟩ := hcurrent.jobId
  rw [hnamed] at hid
  have hlen : note.jobId.length = 16 := by rw [hid, length_encode_quoted]
  have htext : quoted.emptyWork = false ∧ quoted.text = note.jobId := by
    rcases hquoted with hplain | hquick
    · rw [hplain, Option.bind_some, quotedJob, if_pos hlen] at hread
      obtain rfl := Option.some.inj hread
      exact ⟨rfl, rfl⟩
    · rw [hquick, Option.bind_some, quotedJob, if_neg (by rw [List.length_cons]; omega),
        if_pos (by simp [hlen])] at hread
      obtain rfl := Option.some.inj hread
      exact ⟨rfl, rfl⟩
  rw [quoted.findJob_quoted (htext.2.trans hid) hjob hnamed] at hfound
  obtain rfl := Option.some.inj hfound
  exact ⟨htext.1, rfl, hcurrent⟩

/-- A share is hashed over what would be sent. -/
theorem commitment_of_readFrom {m : MinerData} {jobs : Fin 256 → Option StratumJob}
    {work : SubmittedWork} {params : Json} {quoted : QuotedJob}
    (h : work.ReadFrom decode lotto m jobs params quoted) (hempty : quoted.emptyWork = false) :
    work.commitment sha256 = notifyCommitment decode lotto sha256 work.job m.userScript := by
  have hchosen := h.coinbase
  rw [h.emptyWork, hempty] at hchosen
  unfold chosenCoinbase at hchosen
  simp only [Bool.false_eq_true, if_false, Bool.false_and] at hchosen
  unfold SubmittedWork.commitment notifyCommitment
  split at hchosen
  · cases hlotto : lottoCoinbase decode lotto work.job m.userScript with
    | some coinbase =>
      rw [hlotto] at hchosen
      obtain ⟨hcoinbase, huser⟩ := Prod.mk.inj (Except.ok.inj hchosen)
      rw [← huser, if_pos rfl, ← hcoinbase]
    | none =>
      rw [hlotto] at hchosen
      obtain ⟨-, huser⟩ := Prod.mk.inj (Except.ok.inj hchosen)
      rw [← huser, if_neg Bool.false_ne_true]
  · cases hchosen

/-- A share over the commitment that was sent has the hash the miner found, and is
    tested against a target that is not below the one that was sent. -/
theorem agrees_of_coinb1 {m : MinerData} {work : SubmittedWork}
    (h : siaCoinb1 (work.commitment sha256) = note.coinb1) (hslot : work.jobIndex = note.slot)
    (htarget : compareHashes note.target.bytes (m.targetAt note.key).bytes ≤ 0) :
    note.Agrees sha256 blake2b m work := by
  refine ⟨h, ?_⟩
  intro hmark hmeets config loopTsms hhigh
  have hsame : note.shareHash sha256 blake2b work = work.shareHash sha256 blake2b := by
    simp only [SentNotify.shareHash, SentNotify.workRoot, SubmittedWork.shareHash,
      SubmittedWork.header, workRoot, h]
  have hplace : work.target m = m.targetAt note.key := by
    rw [SubmittedWork.target, SentNotify.key, noteKey, hmark, hslot]
    split <;> rfl
  have hlength : note.target.bytes.length = (m.targetAt note.key).bytes.length := by
    rw [Hash32.length_eq, Hash32.length_eq]
  have hhash : (note.shareHash sha256 blake2b work).length = note.target.bytes.length := by
    rw [Hash32.length_eq]
    exact length_powHashLe ..
  have hkept := compareHashes_trans hhash hlength hmeets htarget
  rw [hsame, ← hplace] at hkept
  unfold checkShare at hhigh
  dsimp only at hhigh
  rw [if_neg (Int.not_lt.mpr hkept)] at hhigh
  split_ifs at hhigh <;> cases hhigh

theorem Kept.hashedAsSent (h : s.Kept decode lotto sha256) :
    s.HashedAsSent decode lotto sha256 blake2b := by
  intro note hnote params hquoted work hread _
  obtain ⟨quoted, hfrom⟩ := readFrom_of_readSubmit hread
  obtain ⟨hempty, hslot, -, hcoinb1, htarget⟩ := h.quoted hnote hquoted hfrom.jobId hfrom.job
  refine agrees_of_coinb1 ?_ hslot htarget
  rw [commitment_of_readFrom hfrom hempty, hcoinb1]

variable [DecidableEq ι]

/-- A client whose coinbases stay the same for every job it was sent, and none of
    whose targets falls below what it was sent. -/
theorem Kept.client (h : s.Kept decode lotto sha256) {client : ι} {m : MinerData}
    (hsame : ∀ note ∈ s.sent, note.client = client → ∀ job, s.jobs note.slot = some job →
      job.sentCoinbase decode lotto m.userScript =
        job.sentCoinbase decode lotto (s.clients client).userScript)
    (htargets : ∀ note ∈ s.sent, note.client = client →
      compareHashes note.target.bytes ((s.clients client).targetAt note.key).bytes ≤ 0 →
        compareHashes note.target.bytes (m.targetAt note.key).bytes ≤ 0) :
    Kept decode lotto sha256 { s with clients := Function.update s.clients client m } := by
  refine ⟨h.named, ?_⟩
  intro note hnote
  obtain ⟨job, hjob, hquoted, hcoinb1, htarget⟩ := h.current note hnote
  refine ⟨job, hjob, hquoted, ?_, ?_⟩
  · dsimp only
    by_cases hclient : note.client = client
    · subst hclient
      rw [Function.update_self, hcoinb1,
        notifyCommitment_congr rfl (hsame note hnote rfl job hjob)]
    · rw [Function.update_of_ne hclient]
      exact hcoinb1
  · dsimp only
    by_cases hclient : note.client = client
    · subst hclient
      rw [Function.update_self]
      exact htargets note hnote rfl htarget
    · rw [Function.update_of_ne hclient]
      exact htarget

/-- A notify keeps the notes before it where it lowers none of their targets. -/
theorem Kept.notify (h : s.Kept decode lotto sha256) {client : ι} {slot : Fin 256}
    {quickdiff : Bool} {diff : UInt64} {job : StratumJob} (hjob : s.jobs slot = some job)
    (hcond : s.KeepsSent decode lotto (.notify client slot quickdiff diff)) :
    Kept decode lotto sha256 { s with
      clients := Function.update s.clients client
        ((s.clients client).noteTarget slot quickdiff diff)
      sent := s.sendNotify decode lotto sha256 client slot quickdiff diff job :: s.sent } := by
  have hbefore : Kept decode lotto sha256 { s with
      clients := Function.update s.clients client
        ((s.clients client).noteTarget slot quickdiff diff) } := by
    refine h.client (fun _ _ _ _ _ => by rw [userScript_noteTarget]) ?_
    intro note hnote hclient htarget
    rw [targetAt_noteTarget]
    split
    · next hkey => exact hcond note hnote hclient hkey
    · exact htarget
  refine hbefore.addNote hjob ⟨⟨_, rfl⟩, ?_, ?_⟩
  · simp only [sendNotify, Function.update_self, userScript_noteTarget]
  · simp only [sendNotify, SentNotify.key, Function.update_self, targetAt_noteTarget, if_true]
    exact (compareHashes_le_iff rfl).mpr (Nat.le_refl _)

/-- The step lemma. -/
theorem Kept.step (h : s.Kept decode lotto sha256) (hcond : s.KeepsSent decode lotto event)
    (hstep : s.step decode lotto sha256 event = some s') : s'.Kept decode lotto sha256 := by
  cases event with
  | newJob slot job newBlock time next =>
    obtain rfl := Option.some.inj hstep
    exact h.newJob ⟨time, next, rfl⟩
  | complete slot tags filled =>
    obtain ⟨job, hjob, hstep⟩ := Option.bind_eq_some_iff.mp hstep
    obtain ⟨completed, hcompleted, rfl⟩ := Option.map_eq_some_iff.mp hstep
    exact h.complete hjob hcompleted hcond
  | notify client slot quickdiff diff =>
    obtain ⟨job, hjob, rfl⟩ := Option.map_eq_some_iff.mp hstep
    exact h.notify hjob hcond
  | authorize client username =>
    obtain rfl := Option.some.inj hstep
    exact h.client hcond fun _ _ _ htarget => htarget
  | configure client sidInv versionRolling mask =>
    obtain rfl := Option.some.inj hstep
    exact h.client (fun _ _ _ _ _ => rfl) fun _ _ _ htarget => htarget

/-- The run lemma. -/
theorem kept_of_reachedBy
    (h : (notifySystem decode lotto sha256 ι).ReachedBy (KeepsSent decode lotto) Starts s) :
    s.Kept decode lotto sha256 :=
  h.invariant (fun _ hs => kept_of_starts hs) fun _ _ _ hkept hcond hnext =>
    hkept.step hcond hnext

end NotifyState

end Run

end Notify

/-! ## A coinbaser that is late -/

/-- A hash function that adds up the bytes. -/
def byteSumHash (bytes : List UInt8) : Hash32 where
  bytes := bytes.sum :: List.replicate 31 0
  length_eq := rfl

/-- A job as it is published, with the pool's coinbase alone. -/
def publishedJob : StratumJob :=
  { splitJob with
    coinbase := fun type => if type = 0 then splitCoinbase 0 else ⟨[], []⟩
    blake2bCoinbaseIndex := 0
    coinbase_start := by decide +kernel
    coinbase_unmarked := by decide +kernel }

/-- One client, and no jobs yet. -/
def oneClient : NotifyState Unit where
  jobs := fun _ => none
  clients := fun _ => plainMiner
  sent := []

theorem oneClient_starts : oneClient.Starts := ⟨fun _ => rfl, rfl⟩

def publishEvent : NotifyEvent Unit := .newJob 0 publishedJob true 0x6553f100 1

/-- The coinbaser thread finds a miner to pay. -/
def splitEvent : NotifyEvent Unit := .complete 0 plainTags splitCoinbaserJob

def notifyEvent (diff : UInt64) : NotifyEvent Unit := .notify () 0 false diff

def byteSumSystem : System (NotifyState Unit) (NotifyEvent Unit) :=
  notifySystem (fun _ => none) poolOnlyConfig byteSumHash Unit

/-- A share that quotes an id. -/
def quotingParams (jobId : List UInt8) : Json :=
  .array [.string (ascii "miner"), .string jobId, .string (ascii "0000000000000000"),
    .string (ascii "6553f100"), .string (ascii "00000000")]

/-- What is read for a share that quotes a notify. -/
def NotifyState.shareFor (s : NotifyState Unit) (note : SentNotify Unit) : Option SubmittedWork :=
  (readSubmit (fun _ => none) poolOnlyConfig (s.clients ()) s.jobs
    (quotingParams note.jobId)).toOption

/-- The condition where nothing was sent before a job is completed, and no notify
    raises the difficulty. -/
def NotifyState.unsent (s : NotifyState Unit) : NotifyEvent Unit → Bool
  | .complete _ _ _ => s.sent.isEmpty
  | .authorize _ _ => s.sent.isEmpty
  | .notify _ _ _ diff => s.sent.all fun note =>
    decide (compareHashes note.target.bytes (shareTarget true diff).bytes ≤ 0)
  | _ => true

theorem NotifyState.keepsSent_of_unsent {s : NotifyState Unit} {event : NotifyEvent Unit}
    (h : s.unsent event = true) : s.KeepsSent (fun _ => none) poolOnlyConfig event := by
  cases event with
  | complete slot tags filled =>
    intro note hnote
    rw [List.isEmpty_iff.mp h] at hnote
    cases hnote
  | authorize client username =>
    intro note hnote
    rw [List.isEmpty_iff.mp h] at hnote
    cases hnote
  | newJob _ _ _ _ _ => trivial
  | notify client slot quickdiff diff =>
    intro note hnote _ _
    exact of_decide_eq_true (List.all_eq_true.mp h note hnote)
  | configure _ _ _ _ => trivial

/-- A share for the first notify, for a job that is not stale, is hashed over something
    else, or meets the target that was sent and is a high hash. -/
def NotifyState.firstDiffers (blake2b : List UInt8 → Hash32) (s : NotifyState Unit) : Bool :=
  s.sent.getLast?.any fun note => (s.shareFor note).any fun work =>
    !work.job.isStalePrevblock &&
      (decide (siaCoinb1 (work.commitment byteSumHash) ≠ note.coinb1) ||
        (work.quickdiff == note.quickdiff &&
          decide
            (compareHashes (note.shareHash byteSumHash blake2b work) note.target.bytes ≤ 0) &&
          match checkShare defaultStaleConfig 0 (s.clients ()) work
              (work.shareHash byteSumHash blake2b) with
          | .error .highHash => true
          | _ => false))

theorem NotifyState.not_hashedAsSent_of_firstDiffers {blake2b : List UInt8 → Hash32}
    {s : NotifyState Unit} (h : s.firstDiffers blake2b = true) :
    ¬ s.HashedAsSent (fun _ => none) poolOnlyConfig byteSumHash blake2b := by
  intro hagrees
  obtain ⟨note, hnote, h⟩ := (Option.any_eq_true _ _).mp h
  obtain ⟨work, hwork, h⟩ := (Option.any_eq_true _ _).mp h
  have hread : readSubmit (fun _ => none) poolOnlyConfig (s.clients ()) s.jobs
      (quotingParams note.jobId) = .ok work := by
    unfold shareFor at hwork
    cases hresult : readSubmit (fun _ => none) poolOnlyConfig (s.clients ()) s.jobs
        (quotingParams note.jobId) with
    | error reason =>
      rw [hresult] at hwork
      cases hwork
    | ok found =>
      rw [hresult] at hwork
      exact congrArg Except.ok (Option.some.inj hwork)
  simp only [Bool.and_eq_true, Bool.or_eq_true, Bool.not_eq_true', decide_eq_true_eq,
    beq_iff_eq] at h
  obtain ⟨hstale, hdiffers⟩ := h
  obtain ⟨hcoinb1, hhigh⟩ :=
    hagrees note (List.mem_of_getLast? hnote) _ (.inl rfl) work hread hstale
  rcases hdiffers with hother | ⟨⟨hmark, hmeets⟩, hrejected⟩
  · exact hother hcoinb1
  · have hnot := hhigh hmark hmeets defaultStaleConfig 0
    split at hrejected
    · next herror => exact hnot herror
    · cases hrejected

/-- A hash between the targets of the difficulties 1 and 2. -/
def halfHash (_ : List UInt8) : Hash32 where
  bytes := List.replicate 4 0 ++ 0x80 :: List.replicate 27 0
  length_eq := rfl

def NotifyEvent.isComplete : NotifyEvent Unit → Bool
  | .complete _ _ _ => true
  | _ => false

end ChirpGateway
