import ChirpGateway.Stratum.Block
import ChirpGateway.Stratum.DupesRun

/-!
# The shares of one stratum thread

The checks of `client_mining_submit` behind the hash of a share
(`datum_stratum.c:1403-1489`), for jobs on a template of header version 2, and the
runs of one thread: submits of its clients, its loop, and what other threads do to
the jobs.
-/

namespace ChirpGateway

open Bytes Transition Wire

/-- The settings the two windows are made of, as `datum_conf.c:538-543` and
    `634-643` admit them. -/
structure StaleConfig where
  stratumV1ShareStaleSeconds : Nat
  bitcoindWorkUpdateSeconds : Nat
  shareStale_bounds : 60 ≤ stratumV1ShareStaleSeconds ∧ stratumV1ShareStaleSeconds ≤ 150
  workUpdate_bounds : 5 ≤ bitcoindWorkUpdateSeconds ∧ bitcoindWorkUpdateSeconds ≤ 120

/-- The loop has passed the time up to which shares for a job are accepted. -/
def StaleConfig.isPast (config : StaleConfig) (loopTsms : UInt64) (job : StratumJob) : Bool :=
  loopTsms > job.tsms + UInt64.ofNat
    ((config.stratumV1ShareStaleSeconds + config.bitcoindWorkUpdateSeconds) * 1000)

/-- The target a share is tested against. -/
def SubmittedWork.target (work : SubmittedWork) (m : MinerData) : Hash32 :=
  if work.quickdiff then m.quickdiffTarget else m.stratumJobTargets work.jobIndex

/-- The checks in front of the one for duplicates. -/
def checkShare (config : StaleConfig) (loopTsms : UInt64) (m : MinerData) (work : SubmittedWork)
    (shareHash : List UInt8) : Except SubmitError SubmittedWork :=
  let tmpl := work.job.blockTemplate
  if work.job.isStalePrevblock then .error .staleBlock
  else if tmpl.blake2bTimeOnWire.toUInt64 < tmpl.mintime then .error .timeTooOld
  else if tmpl.blake2bTimeOnWire.toUInt64 > tmpl.curtime + 7200 then .error .timeTooNew
  else if compareHashes shareHash (work.target m).bytes > 0 then .error .highHash
  else if config.isPast loopTsms work.job then .error .stale
  else .ok work

/-- What `datum_stratum_check_for_dupe` is called with: the time of a quick change of
    difficulty is inverted. -/
def SubmittedWork.dupeCall (work : SubmittedWork) (env : DupeEnv) : DupeCall where
  nonce := UInt64.ofNat (leValue work.nonce)
  jobIndex := work.jobIndex
  ntime :=
    if work.quickdiff then ~~~UInt64.ofNat (leValue work.ntime)
    else UInt64.ofNat (leValue work.ntime)
  versionBits := work.bver
  extranonceBin := work.extranonce
  env
  extranonceBin_length := work.extranonce_length

/-! ## The thread -/

/-- An accepted share: what it is compared by, and the work that was hashed. -/
structure Credit where
  share : DupeShare
  header : List UInt8
  deriving DecidableEq

/-- What the submits of one thread see. `credited` is what was accepted for the jobs
    that are still in their slots. -/
structure ThreadState where
  jobs : Fin 256 → Option StratumJob
  loopTsms : UInt64
  dupes : DupeState
  credited : List Credit

inductive ThreadEvent where
  /-- `update_stratum_job`; a new block makes all other jobs stale -/
  | newJob (slot : Fin 256) (job : StratumJob) (newBlock : Bool)
  /-- another thread completes a job -/
  | rewriteJob (slot : Fin 256) (job : StratumJob)
  /-- the thread reads the clock -/
  | loop (tsms : UInt64)
  | submit (m : MinerData) (params : Json) (now : UInt64)

/-- `is_stale_prevblock = true`. -/
def StratumJob.markStale (job : StratumJob) : StratumJob := { job with isStalePrevblock := true }

/-- Completing a job changes neither its time nor whether it is stale. -/
def StratumJob.SameTimes (job other : StratumJob) : Prop :=
  job.jobId = other.jobId ∧ job.tsms = other.tsms ∧
    job.isStalePrevblock = other.isStalePrevblock

instance (job other : StratumJob) : Decidable (job.SameTimes other) :=
  inferInstanceAs (Decidable (_ ∧ _ ∧ _))

namespace ThreadState

variable (decode : List UInt8 → Option (List UInt8)) (lotto : LottoConfig) (config : StaleConfig)
variable (sorter : Qsort.Sorter DupeItem)
variable (sha256 : List UInt8 → Hash32) (blake2b : List UInt8 → Hash32)
variable (s : ThreadState)

/-- What a clean-up reads. -/
def dupeEnv (now : UInt64) : DupeEnv where
  tsms := fun slot => (s.jobs slot).map StratumJob.tsms
  now
  shareStaleSeconds := config.stratumV1ShareStaleSeconds

/-- Shares for the job in a slot are accepted. -/
def stillAccepts (slot : Fin 256) : Bool :=
  match s.jobs slot with
  | none => false
  | some job => !job.isStalePrevblock && !config.isPast s.loopTsms job

/-- `client_mining_submit` up to the check for duplicates. -/
def checkedShare (m : MinerData) (params : Json) : Except SubmitError SubmittedWork := do
  let work ← readSubmit decode lotto m s.jobs params
  checkShare config s.loopTsms m work (work.shareHash sha256 blake2b)

/-- An accepted share is noted. -/
def noteShare (work : SubmittedWork) (now : UInt64) : Bool × DupeTable → ThreadState
  | (seen, table) =>
    let call := work.dupeCall (s.dupeEnv config now)
    let dupes : DupeState := { table, memory := s.dupes.memory.remember call.env call.share }
    if seen then { s with dupes }
    else
      { s with
        dupes
        credited := { share := call.share, header := work.header sha256 blake2b } :: s.credited }

/-- `client_mining_submit`. -/
def submit (m : MinerData) (params : Json) (now : UInt64) : Option ThreadState :=
  match s.checkedShare decode lotto config sha256 blake2b m params with
  | .error _ => some s
  | .ok work =>
    let call := work.dupeCall (s.dupeEnv config now)
    (s.dupes.table.checkForDupe sorter call.env call.share).map
      (s.noteShare config sha256 blake2b work now)

/-- A job takes the place of another, whose shares no longer count. -/
def putJob (slot : Fin 256) (job : StratumJob) (newBlock : Bool) : ThreadState :=
  let others := if newBlock then fun i => (s.jobs i).map StratumJob.markStale else s.jobs
  { s with
    jobs := Function.update others slot (some job)
    credited := s.credited.filter fun credit => credit.share.jobIndex ≠ slot }

end ThreadState

/-- The runs of a thread. -/
def threadSystem (decode : List UInt8 → Option (List UInt8)) (lotto : LottoConfig)
    (config : StaleConfig) (sorter : Qsort.Sorter DupeItem)
    (sha256 blake2b : List UInt8 → Hash32) : System ThreadState ThreadEvent where
  step s event :=
    match event with
    | .newJob slot job newBlock => some (s.putJob slot job newBlock)
    | .rewriteJob slot job =>
      if (s.jobs slot).any fun old => decide (job.SameTimes old) then
        some { s with jobs := Function.update s.jobs slot (some job) }
      else none
    | .loop tsms => some { s with loopTsms := tsms }
    | .submit m params now => s.submit decode lotto config sorter sha256 blake2b m params now

/-- No shares yet, and an empty table of a size the configuration admits. -/
def ThreadState.IsInitial (s : ThreadState) : Prop :=
  s.dupes.IsInitial ∧ s.credited = []

end ChirpGateway
