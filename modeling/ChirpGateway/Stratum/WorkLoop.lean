import Mathlib.Data.List.Basic
import Mathlib.Data.UInt

/-!
# The work a thread sends

A turn of `datum_stratum_v1_socket_thread_loop` up to the check for idle clients
(`datum_stratum.c:377-391`, `406-646`): the thread takes up a job that was published, sends
it to its clients at once, first empty where the block is new, or hands a normal job out
over the time until the next one.
-/

namespace ChirpGateway

/-- What the loop reads of a job. The states are those of `datum_stratum.h:72-99`. -/
structure LoopJob where
  jobState : Nat
  height : UInt64
  tsms : UInt64
  needCoinbaser : Bool

/-- What a thread keeps between two turns. `cur_stratum_job` is the job in the slot of
    `latest_stratum_job_index`. -/
structure WorkThread where
  latestStratumJobIndex : Fin 256
  newJob : Bool
  lastWasEmpty : Bool
  fullCoinbaseReady : Bool
  lastJobHeight : UInt64
  loopTsms : UInt64
  notifyRemainingCount : Int
  notifyStartTime : UInt64
  notifyLastTime : UInt64
  notifyDelayPerSlotTsms : UInt64
  notifyLastCid : Int

/-- The place of a thread among the others, and the interval between updates of work, which
    `datum_conf.c:540-546` keeps above five seconds. -/
structure PaceConfig where
  maxClientsThread : Nat
  maxThreads : Nat
  threadId : Nat
  bitcoindWorkUpdateSeconds : Nat
  updates_apart : 5 ≤ bitcoindWorkUpdateSeconds

/-- A call of `send_mining_notify`, which in the loop is never for a quick change. -/
structure LoopNotify where
  cid : Nat
  clean : Bool
  newBlock : Bool
  fullCoinbaseReady : Bool
  deriving DecidableEq

/-- Work that is sent to all clients of a thread at once. -/
inductive Blast where
  | empty
  | full
  deriving DecidableEq

/-- What comes of a part of a turn. -/
structure WorkDone where
  after : WorkThread
  notifies : List LoopNotify
  blast : Option Blast

/-- `stratum_latest_empty_increment_complete` is called. -/
def WorkDone.completes (done : WorkDone) : Bool := done.blast = some .empty

/-- The clients of a thread that are subscribed, with `subscribe_tsms`. -/
abbrev Subscribers := Nat → Option UInt64

namespace WorkThread

variable (s : WorkThread)

/-- `datum_stratum_v1_socket_thread_init`, on data that was allocated with zeros. -/
def init (latest : Fin 256) : WorkThread where
  latestStratumJobIndex := latest
  newJob := false
  lastWasEmpty := false
  fullCoinbaseReady := false
  lastJobHeight := 0
  loopTsms := 0
  notifyRemainingCount := 0
  notifyStartTime := 0
  notifyLastTime := 0
  notifyDelayPerSlotTsms := 0
  notifyLastCid := 0

/-- `stratum_job_coinbaser_ready`. After five seconds a job goes out without its coinbaser. -/
def coinbaserReady (job : LoopJob) : Bool × WorkThread :=
  if s.loopTsms > job.tsms && s.loopTsms - job.tsms > 5000 then
    (true, { s with fullCoinbaseReady := false })
  else if job.needCoinbaser then (false, s)
  else (true, { s with fullCoinbaseReady := true })

/-- A new job is taken up. -/
def takeUp (latest : Fin 256) (job : LoopJob) : WorkThread :=
  { s with
    latestStratumJobIndex := latest
    newJob := true
    lastWasEmpty := if job.jobState = 2 then false else s.lastWasEmpty
    notifyRemainingCount := 0
    fullCoinbaseReady := false
    lastJobHeight := job.height }

/-- The look at the latest job, under the lock for the jobs. Behind empty work a job that
    waits for its coinbaser is not seen, unless it is for another height. -/
def pickUp (latest : Fin 256) (jobs : Fin 256 → LoopJob) : WorkThread :=
  if latest = s.latestStratumJobIndex then s
  else if s.lastWasEmpty && 4 ≤ (jobs latest).jobState then
    let (ready, s) := s.coinbaserReady (jobs latest)
    if ready || s.lastJobHeight ≠ (jobs latest).height then s.takeUp latest (jobs latest) else s
  else s.takeUp latest (jobs latest)

variable (cfg : PaceConfig) (clients : Subscribers)

/-- `datum_stratum_v1_get_thread_subscriber_count`, as the list of those that are counted. -/
def subscriberCids : List Nat :=
  (List.range cfg.maxClientsThread).filter fun cid => (clients cid).isSome

/-- A notify to all. -/
def blast (clean newBlock : Bool) : List LoopNotify :=
  (subscriberCids cfg clients).map fun cid =>
    { cid, clean, newBlock, fullCoinbaseReady := s.fullCoinbaseReady }

/-- The job is to be handed out until three seconds before the next one. The threads are
    staggered. -/
def startPacing : WorkThread :=
  let remaining := (subscriberCids cfg clients).length
  if 0 < remaining then
    let perSlot := UInt64.ofNat ((cfg.bitcoindWorkUpdateSeconds - 3) * 1000 / remaining)
    let delay := if perSlot = 0 then 1 else perSlot
    { s with
      notifyRemainingCount := remaining
      notifyLastCid := -1
      notifyStartTime := s.loopTsms
      notifyDelayPerSlotTsms := delay
      notifyLastTime :=
        s.loopTsms - delay / UInt64.ofNat cfg.maxThreads * UInt64.ofNat cfg.threadId }
  else { s with notifyRemainingCount := remaining }

/-- The thread reads the clock. -/
def atTime (now : UInt64) : WorkThread := { s with loopTsms := now }

/-- New work was sent, or handed out. -/
def workSent : WorkThread := { s with newJob := false, lastWasEmpty := false }

/-- Empty work is sent at once. -/
def sendEmpty (stays : Bool) : WorkDone where
  after := { s with newJob := stays, lastWasEmpty := true }
  notifies := s.blast cfg clients true true
  blast := some .empty

/-- Full work is sent at once. -/
def sendFull : WorkDone where
  after := s.workSent
  notifies := s.blast cfg clients false false
  blast := some .full

/-- What a turn does about a new job; `readyForFull` is what
    `stratum_latest_empty_check_ready_for_full` returns. -/
def workOn (job : LoopJob) (readyForFull : Bool) : WorkDone :=
  let rest : WorkDone := { after := s, notifies := [], blast := none }
  if s.newJob then
    let s := { s with fullCoinbaseReady := false }
    match job.jobState with
    | 1 => s.sendEmpty cfg clients false
    | 2 =>
      if !s.lastWasEmpty then s.sendEmpty cfg clients true
      else if readyForFull then s.sendFull cfg clients
      else { rest with after := s }
    | 3 => s.sendFull cfg clients
    | 4 =>
      let (ready, s) := s.coinbaserReady job
      if ready then s.sendFull cfg clients else { rest with after := s }
    | 5 =>
      let (ready, s) := s.coinbaserReady job
      if ready then
        if s.lastWasEmpty then s.sendFull cfg clients
        else { rest with after := (s.startPacing cfg clients).workSent }
      else { rest with after := s }
    | _ => rest
  else rest

/-- The client subscribed before the job was begun to be handed out. -/
def eligible (cid : Nat) : Bool :=
  match clients cid with
  | none => false
  | some subscribeTsms => subscribeTsms ≤ s.notifyStartTime

/-- The clients that are notified in one turn, and whether the scan came to its end. -/
def paceScan (eligible : Nat → Bool) : (budget : Nat) → List Nat → List Nat × Bool
  | _, [] => ([], true)
  | budget, cid :: cids =>
    if eligible cid then
      if budget = 1 then ([cid], false)
      else
        let (notified, ended) := paceScan eligible (budget - 1) cids
        (cid :: notified, ended)
    else paceScan eligible budget cids

/-- How many clients are to be notified, where it is time for one. -/
def paceBudget : Option Nat :=
  let tsms := s.loopTsms - s.notifyLastTime
  if tsms = 0 || tsms ≥ s.notifyDelayPerSlotTsms then
    let slots := (tsms / s.notifyDelayPerSlotTsms).toNat
    some (if slots = 0 then 1 else slots)
  else none

/-- The clients that are notified next. -/
def paceCids : List Nat × Bool :=
  match s.paceBudget with
  | none => ([], false)
  | some budget =>
    paceScan (s.eligible clients) budget
      ((List.range cfg.maxClientsThread).drop (s.notifyLastCid + 1).toNat)

/-- A part of a job that is handed out. -/
def pace : WorkDone :=
  if 0 < s.notifyRemainingCount then
    let (cids, ended) := s.paceCids cfg clients
    { after :=
        { s with
          notifyRemainingCount := if ended then 0 else s.notifyRemainingCount - cids.length
          notifyLastCid := (cids.getLast?.map Int.ofNat).getD s.notifyLastCid
          notifyLastTime := if s.paceBudget.isSome then s.loopTsms else s.notifyLastTime }
      notifies := cids.map fun cid =>
        { cid, clean := false, newBlock := false, fullCoinbaseReady := s.fullCoinbaseReady }
      blast := none }
  else { after := s, notifies := [], blast := none }

/-- `datum_stratum_v1_socket_thread_loop`, without the check for idle clients. -/
def loopTurn (latest : Fin 256) (jobs : Fin 256 → LoopJob) (readyForFull : Bool) (now : UInt64) :
    WorkDone :=
  let s := (s.pickUp latest jobs).atTime now
  let work := s.workOn cfg clients (jobs s.latestStratumJobIndex) readyForFull
  let paced := work.after.pace cfg clients
  { after := paced.after
    notifies := work.notifies ++ paced.notifies
    blast := work.blast }

end WorkThread

end ChirpGateway
