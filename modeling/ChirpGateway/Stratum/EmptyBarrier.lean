import ChirpGateway.Lib.Tables
import ChirpGateway.Lib.Transition
import ChirpGateway.Stratum.WorkLoop
import Mathlib.Logic.Function.Basic

/-!
# Full work behind empty work

On a new block every thread is to send its clients empty work before any of them sends full
work. The threads count themselves as they are done, and the thread of the server compares
the count to the number of threads (`datum_stratum.c:75-108`, `277-293`). Here are the runs
of the template thread, which publishes the jobs (`datum_stratum.c:2320-2456`), of the
threads with their clients, which are started one by one (`datum_sockets.c:413-443`), and of
that comparison.
-/

namespace ChirpGateway

open Transition

/-! ## The state -/

/-- Why work is updated: a new block, the full work behind it, a block that is made up on a
    test net, and the regular update (`datum_blocktemplates.c:957-1048`). -/
inductive WorkCause where
  | emptyPlus
  | fullPriority
  | fastForward
  | fullNormal

namespace WorkCause

def jobState : WorkCause → Nat
  | emptyPlus => 2
  | fullPriority => 4
  | fastForward => 4
  | fullNormal => 5

def newBlock : WorkCause → Bool
  | emptyPlus => true
  | fullPriority => false
  | fastForward => true
  | fullNormal => false

/-- The job that `update_stratum_job` makes. -/
def job (cause : WorkCause) (height tsms : UInt64) : LoopJob where
  jobState := cause.jobState
  height
  tsms
  needCoinbaser := cause.jobState = 4 || cause.jobState = 5

end WorkCause

/-- How far `update_stratum_job` is. -/
inductive UpdatePhase where
  | idle
  | written (newBlock : Bool)
  | reset
  deriving DecidableEq

/-- How far a thread is in a turn of its loop; before the first one it has to be set up. -/
inductive TurnPhase where
  | starting
  | resting
  | picked
  | worked (blast : Option Blast)
  deriving DecidableEq

/-- A thread, and which of all jobs it works on. -/
structure BarrierThread where
  work : WorkThread
  phase : TurnPhase
  serial : Nat

/-- What happened, for the record. -/
inductive BarrierEvent where
  /-- A thread sent a job, in the state that is given, to all its clients. -/
  | blast (thread serial jobState : Nat) (kind : Blast)
  /-- Full work was let through, with the job that was waited for and the number of threads. -/
  | opened (serial created : Nat)
  deriving DecidableEq

/-- The jobs are counted in `latest`, which the code keeps modulo the size of the ring. The
    last three fields are a record that the code does not keep. -/
structure EmptyBarrier where
  latest : Nat
  jobs : Fin 256 → LoopJob
  update : UpdatePhase
  latestEmptyJobIndex : Fin 256
  latestEmptyCompleteCount : Nat
  latestEmptyReadyForFull : Bool
  created : Nat
  datumActiveThreads : Nat
  threads : Nat → BarrierThread
  recordSerial : Nat
  arrived : List Nat
  log : List BarrierEvent

inductive BarrierAction where
  /-- `update_stratum_job` overwrites the oldest job. -/
  | write (cause : WorkCause) (height tsms : UInt64)
  | resetEmpty
  | publish
  /-- The coinbaser of a job is there. -/
  | coinbaserDone (slot : Fin 256)
  /-- `assign_to_thread` starts a thread, and counts it later. -/
  | create
  | count
  | init (thread : Nat)
  | pick (thread : Nat) (now : UInt64)
  | work (thread : Nat) (clients : Subscribers)
  | finish (thread : Nat) (clients : Subscribers)
  /-- The comparison in `datum_stratum_v1_socket_server`. -/
  | judge

def BarrierAction.isWrite : BarrierAction → Bool
  | .write .. => true
  | _ => false

/-- The place of a job in the ring. -/
def slotOf (serial : Nat) : Fin 256 := ⟨serial % 256, Nat.mod_lt serial (Nat.zero_lt_succ 255)⟩

/-- A thread that was allocated. -/
def startingThread : BarrierThread := ⟨WorkThread.init 0, .starting, 0⟩

namespace EmptyBarrier

variable (b : EmptyBarrier)

/-! ## The steps -/

/-- The first job is published, and no client has connected yet. -/
def first (height tsms : UInt64) (jobs : Fin 256 → LoopJob) : EmptyBarrier where
  latest := 0
  jobs := Function.update jobs (slotOf 0) (WorkCause.emptyPlus.job height tsms)
  update := .idle
  latestEmptyJobIndex := slotOf 0
  latestEmptyCompleteCount := 0
  latestEmptyReadyForFull := false
  created := 0
  datumActiveThreads := 0
  threads := fun _ => startingThread
  recordSerial := 0
  arrived := []
  log := []

/-- The job of the slot behind the latest one is overwritten. -/
def write (cause : WorkCause) (height tsms : UInt64) : EmptyBarrier :=
  { b with
    jobs := Function.update b.jobs (slotOf (b.latest + 1)) (cause.job height tsms)
    update := .written cause.newBlock }

/-- The count starts again, for the job that is published next. -/
def resetEmpty : EmptyBarrier :=
  { b with
    update := .reset
    latestEmptyJobIndex := slotOf (b.latest + 1)
    latestEmptyCompleteCount := 0
    latestEmptyReadyForFull := false
    recordSerial := b.latest + 1
    arrived := [] }

def publish : EmptyBarrier := { b with latest := b.latest + 1, update := .idle }

def coinbaserDone (slot : Fin 256) : EmptyBarrier :=
  { b with jobs := Function.update b.jobs slot { b.jobs slot with needCoinbaser := false } }

def create : EmptyBarrier :=
  { b with
    created := b.created + 1
    threads := Function.update b.threads b.created startingThread }

def count : EmptyBarrier := { b with datumActiveThreads := b.datumActiveThreads + 1 }

def setThread (t : Nat) (thread : BarrierThread) : EmptyBarrier :=
  { b with threads := Function.update b.threads t thread }

/-- `datum_stratum_v1_socket_thread_init`. -/
def init (t : Nat) : EmptyBarrier :=
  b.setThread t ⟨WorkThread.init (slotOf b.latest), .resting, b.latest⟩

/-- A turn begins with a look at the latest job. -/
def pick (t : Nat) (now : UInt64) : EmptyBarrier :=
  let thread := b.threads t
  let work := thread.work.pickUp (slotOf b.latest) b.jobs
  b.setThread t
    { work := work.atTime now
      phase := .picked
      serial := if work.latestStratumJobIndex = thread.work.latestStratumJobIndex then thread.serial
        else b.latest }

/-- Work is sent. -/
def work (cfg : Nat → PaceConfig) (t : Nat) (clients : Subscribers) : EmptyBarrier :=
  let thread := b.threads t
  let job := b.jobs thread.work.latestStratumJobIndex
  let done := thread.work.workOn (cfg t) clients job b.latestEmptyReadyForFull
  { b.setThread t { thread with work := done.after, phase := .worked done.blast } with
    log := (done.blast.map (BarrierEvent.blast t thread.serial job.jobState)).toList ++ b.log }

/-- `stratum_latest_empty_increment_complete`. -/
def incrementComplete (t : Nat) (index : Fin 256) : EmptyBarrier :=
  if b.latestEmptyJobIndex = index ∧ b.latestEmptyReadyForFull = false then
    { b with
      latestEmptyCompleteCount := b.latestEmptyCompleteCount + 1
      arrived := t :: b.arrived }
  else b

/-- The rest of a turn. -/
def finish (cfg : Nat → PaceConfig) (t : Nat) (clients : Subscribers) (blast : Option Blast) :
    EmptyBarrier :=
  let thread := b.threads t
  let counted := if blast = some .empty then b.incrementComplete t thread.work.latestStratumJobIndex
    else b
  counted.setThread t
    { thread with work := (thread.work.pace (cfg t) clients).after, phase := .resting }

/-- Full work is let through where as many threads are done as are running. -/
def judge : EmptyBarrier :=
  if b.latestEmptyReadyForFull = false ∧ b.datumActiveThreads ≤ b.latestEmptyCompleteCount then
    { b with
      latestEmptyReadyForFull := true
      log := .opened b.recordSerial b.created :: b.log }
  else b

/-- The thread `t` is in the phase. -/
def InPhase (t : Nat) (phase : TurnPhase) : Prop := t < b.created ∧ (b.threads t).phase = phase

instance (t : Nat) (phase : TurnPhase) : Decidable (b.InPhase t phase) :=
  inferInstanceAs (Decidable (_ ∧ _))

/-- What each thread does next, where it can. -/
def step (cfg : Nat → PaceConfig) : BarrierAction → Option EmptyBarrier
  | .write cause height tsms => if b.update = .idle then some (b.write cause height tsms) else none
  | .resetEmpty => if b.update = .written true then some b.resetEmpty else none
  | .publish => if b.update = .written false ∨ b.update = .reset then some b.publish else none
  | .coinbaserDone slot => some (b.coinbaserDone slot)
  | .create => if b.created = b.datumActiveThreads then some b.create else none
  | .count => if b.datumActiveThreads < b.created then some b.count else none
  | .init t => if b.InPhase t .starting then some (b.init t) else none
  | .pick t now => if b.InPhase t .resting then some (b.pick t now) else none
  | .work t clients => if b.InPhase t .picked then some (b.work cfg t clients) else none
  | .finish t clients =>
    match (b.threads t).phase with
    | .worked blast => if t < b.created then some (b.finish cfg t clients blast) else none
    | _ => none
  | .judge => some b.judge

/-- The places of the threads are given. -/
def system (cfg : Nat → PaceConfig) : System EmptyBarrier BarrierAction :=
    ⟨fun b => b.step cfg⟩

/-- No thread still works on the job that is overwritten. -/
def KeepsUp (action : BarrierAction) : Prop :=
  action.isWrite = true → ∀ t < b.created, (b.threads t).phase ≠ .starting →
    b.latest < (b.threads t).serial + 255

instance (action : BarrierAction) : Decidable (b.KeepsUp action) :=
  inferInstanceAs (Decidable (_ → _))

end EmptyBarrier

end ChirpGateway
