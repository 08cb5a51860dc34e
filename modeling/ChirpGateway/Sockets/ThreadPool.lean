import ChirpGateway.Lib.History
import ChirpGateway.Sockets.FreeSlots
import Mathlib.Algebra.BigOperators.Group.Finset.Piecewise
import Mathlib.Algebra.BigOperators.Intervals
import Mathlib.Algebra.Order.BigOperators.Group.Finset

/-!
# The pool of threads

How the listener finds a thread for a connection (`datum_sockets.c:367-551`). While there are
threads that have not been started, every connection starts one of its own. Then the listener
goes through the counts of all threads, without their locks, for the one with the fewest
clients, and any of these may leave while it looks.
-/

namespace ChirpGateway

open Finset History Transition

/-- The limits of a server, as `datum_conf.c:583-592` admits them. -/
structure ServerLimits where
  maxThreads : Nat
  maxClientsThread : Nat
  maxClients : Int
  maxThreads_le : maxThreads ≤ 64
  maxClientsThread_pos : 1 ≤ maxClientsThread
  maxClientsThread_le : maxClientsThread ≤ 4096

/-- The clients each thread counts. -/
abbrev Loads := Nat → Int

/-- What a connection came to: the loads, and whether a thread was inactive. -/
structure Arrival where
  loads : Loads
  inactive : Bool

/-- What became of a connection. -/
inductive Placement where
  /-- It has a slot. `found` are the loads just before, and `launched` says that the thread
      was started for it. -/
  | placed (tid cid : Nat) (launched : Bool) (came : Arrival) (found : Loads)
  | refused (came : Arrival)
  /-- No thread could be created for it. -/
  | startFailed (tid : Nat)

/-- Where `assign_to_thread` is. -/
inductive AssignPhase where
  | idle
  /-- at the count of thread `i`, with `j`, `tid` and `tc` -/
  | looking (fd : Int) (came : Arrival) (i : Nat) (j : Int) (tid : Option Nat) (tc : Int)
  /-- in front of the lock of the thread -/
  | placing (fd : Int) (came : Arrival) (tid : Nat) (launched : Bool)

/-- The threads of a server, and the listener. The last placement comes first. -/
structure ThreadPool where
  threads : Nat → ThreadSlots
  isActive : Nat → Bool
  datumActiveThreads : Nat
  phase : AssignPhase
  placements : List Placement

inductive PoolEvent where
  /-- A connection is accepted; `created` is what `pthread_create` comes to, if it is called. -/
  | accept (fd : Int) (created : Bool)
  /-- the next turn of the loop over the threads, or its end -/
  | look
  /-- the part that holds the lock -/
  | place
  | leave (tid cid : Nat)

/-- `clean_thread_data`. -/
def ThreadSlots.clean (maxClientsThread : Nat) (s : ThreadSlots) : ThreadSlots where
  fd i := if i < maxClientsThread then 0 else s.fd i
  connectedClients := 0
  nextOpenClientIndex := 0

namespace ThreadPool

variable (cfg : ServerLimits) (s : ThreadPool)

def loads : Loads := fun tid => (s.threads tid).connectedClients

/-- What a connection comes to now. -/
def arrival : Arrival where
  loads := s.loads
  inactive := (List.range cfg.maxThreads).any fun i => !s.isActive i

/-- The clients of all threads. -/
def total (cfg : ServerLimits) (loads : Loads) : Int := ∑ tid ∈ range cfg.maxThreads, loads tid

/-- `assign_to_thread` returns. -/
def finish (placement : Placement) : ThreadPool :=
  { s with phase := .idle, placements := placement :: s.placements }

/-- The first inactive thread is started. -/
def launch (fd : Int) (created : Bool) (tid : Nat) : ThreadPool :=
  let s' := { s with
    threads := Function.update s.threads tid ((s.threads tid).clean cfg.maxClientsThread)
    isActive := Function.update s.isActive tid true }
  if created then
    { s' with
      datumActiveThreads := s.datumActiveThreads + 1
      phase := .placing fd (s.arrival cfg) tid true }
  else s'.finish (.startFailed tid)

/-- `assign_to_thread` up to the loop. -/
def accept (fd : Int) (created : Bool) : ThreadPool :=
  if s.datumActiveThreads < cfg.maxThreads then
    match (List.range cfg.maxThreads).find? fun i => !s.isActive i with
    | none => s.finish (.refused (s.arrival cfg))
    | some tid => s.launch cfg fd created tid
  else { s with phase := .looking fd (s.arrival cfg) 0 cfg.maxClientsThread none 0 }

/-- The loop over the threads, and the checks behind it. The count of a thread is read once in
    its turn, where the source reads it up to three times. -/
def look (fd : Int) (came : Arrival) (i : Nat) (j : Int) (tid : Option Nat) (tc : Int) :
    ThreadPool :=
  if i < cfg.maxThreads then
    let connected := s.loads i
    if connected < j then
      { s with phase := .looking fd came (i + 1) connected (some i) (tc + connected) }
    else { s with phase := .looking fd came (i + 1) j tid (tc + connected) }
  else
    match tid with
    | none => s.finish (.refused came)
    | some tid =>
      if tc ≥ cfg.maxClients then s.finish (.refused came)
      else { s with phase := .placing fd came tid false }

/-- The part of `assign_to_thread` that holds the lock. -/
def place (fd : Int) (came : Arrival) (tid : Nat) (launched : Bool) : Option ThreadPool :=
  ((s.threads tid).assignToThread cfg.maxClientsThread cfg.maxClientsThread fd).map fun
    | none => s.finish (.refused came)
    | some taken =>
      { s with threads := Function.update s.threads tid taken.after }.finish
        (.placed tid taken.cid launched came s.loads)

def leave (tid cid : Nat) : ThreadPool :=
  { s with threads := Function.update s.threads tid ((s.threads tid).clientCountDecrement cid) }

def step : PoolEvent → Option ThreadPool
  | .accept fd created =>
    match s.phase with
    | .idle => some (s.accept cfg fd created)
    | _ => none
  | .look =>
    match s.phase with
    | .looking fd came i j tid tc => some (s.look cfg fd came i j tid tc)
    | _ => none
  | .place =>
    match s.phase with
    | .placing fd came tid launched => s.place cfg fd came tid launched
    | _ => none
  | .leave tid cid => some (s.leave tid cid)

/-- A descriptor is not the one of the standard input, and only clients that are there leave. -/
def Allows : PoolEvent → Prop
  | .accept fd _ => fd ≠ 0
  | .leave tid cid => tid < cfg.maxThreads ∧ cid < cfg.maxClientsThread ∧
    (s.threads tid).fd cid ≠ 0
  | _ => True

/-- What `datum_gateway_listener_thread` starts with. -/
structure IsStarted : Prop where
  threads : ∀ tid, (s.threads tid).IsClean cfg.maxClientsThread
  isActive : ∀ tid, s.isActive tid = false
  datumActiveThreads : s.datumActiveThreads = 0
  phase : s.phase = .idle
  placements : s.placements = []

end ThreadPool

/-- The runs of the listener and of the clients that leave. -/
def poolSystem (cfg : ServerLimits) : System ThreadPool PoolEvent where
  step s event := s.step cfg event

namespace ThreadPool

variable {cfg : ServerLimits} {s s' : ThreadPool}

/-! ## What is kept -/

/-- What has been read of the counts while clients leave: no count is higher now than as it
    was read, nor was it then higher than as the connection came. -/
structure Looked (cfg : ServerLimits) (loads came : Loads) (i : Nat) (j : Int) (tid : Option Nat)
    (tc : Int) : Prop where
  inRange : i ≤ cfg.maxThreads
  fewer : ∀ other < cfg.maxThreads, loads other ≤ came other
  counted : ∑ other ∈ range i, loads other ≤ tc ∧ tc ≤ ∑ other ∈ range i, came other
  fewest : ∀ other < i, j ≤ came other
  chosen : match tid with
    | none => j = cfg.maxClientsThread
    | some tid => tid < i ∧ loads tid ≤ j ∧ j < cfg.maxClientsThread

/-- The thread that a client is put on is empty if it was started for it. Else no thread had
    fewer clients as the connection came, and there is room for the client. -/
structure Chosen (cfg : ServerLimits) (loads came : Loads) (tid : Nat) (launched : Bool) :
    Prop where
  inRange : tid < cfg.maxThreads
  room : loads tid < cfg.maxClientsThread
  empty : launched = true → loads tid = 0
  fewest : launched = false → ∀ other < cfg.maxThreads, loads tid ≤ came other
  below : launched = false → total cfg loads < cfg.maxClients

end ThreadPool

/-- A client is put where there is room, on a new thread exactly where one was inactive. A
    connection is refused only where none was, and as it came every thread was full or the limit
    of the server was reached, or the start of a thread has failed before. -/
def Placement.Right (cfg : ServerLimits) (placement : Placement) (before : List Placement) : Prop :=
  match placement with
  | .placed tid cid launched came found =>
    launched = came.inactive ∧ ThreadPool.Chosen cfg found came.loads tid launched ∧
      cid < cfg.maxClientsThread ∧ ThreadPool.total cfg found < max cfg.maxClients cfg.maxThreads
  | .refused came =>
    came.inactive = false ∧
      ((∀ tid < cfg.maxThreads, cfg.maxClientsThread ≤ came.loads tid) ∨
        cfg.maxClients ≤ ThreadPool.total cfg came.loads ∨ ∃ tid, .startFailed tid ∈ before)
  | .startFailed tid => tid < cfg.maxThreads

def Placement.isStartFailed : Placement → Bool
  | .startFailed _ => true
  | _ => false

namespace ThreadPool

variable (cfg : ServerLimits) (s : ThreadPool)

/-- The threads that have been started, or should have been. -/
def active : Finset Nat := (range cfg.maxThreads).filter fun tid => s.isActive tid

/-- The way a connection takes: over the counts only where all threads run. -/
def PhaseTried : AssignPhase → Prop
  | .idle => True
  | .looking _ came _ _ _ _ => came.inactive = false ∧ cfg.maxThreads ≤ s.datumActiveThreads
  | .placing _ came _ launched =>
    launched = came.inactive ∧ (launched = false → cfg.maxThreads ≤ s.datumActiveThreads)

/-- Every active thread runs, or its start has failed. -/
structure Tried : Prop where
  started : s.datumActiveThreads + s.placements.countP Placement.isStartFailed =
    (s.active cfg).card
  way : s.PhaseTried cfg s.phase

def PhaseKept : AssignPhase → Prop
  | .idle => True
  | .looking fd came i j tid tc => fd ≠ 0 ∧ Looked cfg s.loads came.loads i j tid tc
  | .placing fd came tid launched => fd ≠ 0 ∧ Chosen cfg s.loads came.loads tid launched ∧
    total cfg s.loads < max cfg.maxClients cfg.maxThreads ∧
      (launched = true → s.isActive tid = true)

/-- Until all threads are started, no thread has more than the client it was started for. -/
structure Kept : Prop extends Tried cfg s where
  threads : ∀ tid, (s.threads tid).Sound cfg.maxClientsThread
  alone : s.datumActiveThreads < cfg.maxThreads → ∀ tid < cfg.maxThreads,
    s.loads tid ≤ if s.isActive tid then 1 else 0
  bounded : total cfg s.loads ≤ max cfg.maxClients cfg.maxThreads
  phase : s.PhaseKept cfg s.phase
  right : Always (Placement.Right cfg) s.placements

variable {cfg s}

/-! ## Counts -/

theorem total_update (loads : Loads) {tid : Nat} (htid : tid < cfg.maxThreads) (n : Int) :
    total cfg (Function.update loads tid n) = total cfg loads - loads tid + n := by
  have hmem := mem_range.mpr htid
  have hsplit := sum_eq_add_sum_sdiff_singleton_of_mem hmem loads
  unfold total
  rw [sum_update_of_mem hmem, hsplit]
  omega

theorem total_le {loads loads' : Loads} (h : ∀ tid < cfg.maxThreads, loads tid ≤ loads' tid) :
    total cfg loads ≤ total cfg loads' :=
  sum_le_sum fun tid htid => h tid (mem_range.mp htid)

/-- The counts after one thread has changed. -/
theorem loads_update (s : ThreadPool) (tid : Nat) (slots : ThreadSlots) (isActive : Nat → Bool)
    (datumActiveThreads : Nat) (phase : AssignPhase) (placements : List Placement) :
    ThreadPool.loads ⟨Function.update s.threads tid slots, isActive, datumActiveThreads, phase,
      placements⟩ = Function.update s.loads tid slots.connectedClients := by
  funext other
  by_cases hsame : other = tid
  · subst hsame
    simp [loads]
  · simp [loads, hsame]

theorem Kept.loads_le (h : s.Kept cfg) (tid : Nat) : s.loads tid ≤ cfg.maxClientsThread := by
  have hcounted := (h.threads tid).counted
  have hcard := ThreadSlots.card_occupied_le (s.threads tid) cfg.maxClientsThread
  unfold loads
  omega

theorem sound_update (h : ∀ tid, (s.threads tid).Sound cfg.maxClientsThread) (tid : Nat)
    {slots : ThreadSlots} (hslots : slots.Sound cfg.maxClientsThread) (other : Nat) :
    (Function.update s.threads tid slots other).Sound cfg.maxClientsThread := by
  by_cases hsame : other = tid
  · subst hsame
    rw [Function.update_self]
    exact hslots
  · rw [Function.update_of_ne hsame]
    exact h other

theorem isClean_clean (cfg : ServerLimits) (slots : ThreadSlots) :
    (slots.clean cfg.maxClientsThread).IsClean cfg.maxClientsThread :=
  ⟨fun _ hi => if_pos hi, rfl, rfl⟩

/-! ## Threads that are tried -/

theorem inactive_arrival_iff :
    (s.arrival cfg).inactive = true ↔ ∃ tid < cfg.maxThreads, s.isActive tid = false := by
  simp only [arrival, List.any_eq_true, List.mem_range, Bool.not_eq_true']

theorem Tried.finish (h : s.Tried cfg) {placement : Placement}
    (hno : placement.isStartFailed = false) : (s.finish placement).Tried cfg := by
  refine ⟨?_, trivial⟩
  show s.datumActiveThreads + (placement :: s.placements).countP Placement.isStartFailed = _
  rw [List.countP_cons_of_neg (by simp [hno])]
  exact h.started

theorem card_active_launch {tid : Nat} (htid : tid < cfg.maxThreads)
    (hidle : s.isActive tid = false)
    {s' : ThreadPool} (hs' : s'.isActive = Function.update s.isActive tid true) :
    (s'.active cfg).card = (s.active cfg).card + 1 := by
  have hinsert : s'.active cfg = insert tid (s.active cfg) := by
    ext other
    unfold active
    rw [mem_insert, mem_filter, mem_filter, mem_range, hs']
    by_cases hsame : other = tid
    · simp [hsame, htid]
    · simp [hsame]
  rw [hinsert, card_insert_of_notMem]
  simp [active, hidle]

theorem Tried.launch (h : s.Tried cfg) (fd : Int) (created : Bool) {tid : Nat}
    (htid : tid < cfg.maxThreads) (hidle : s.isActive tid = false) :
    (s.launch cfg fd created tid).Tried cfg := by
  have hinactive : (s.arrival cfg).inactive = true :=
    inactive_arrival_iff.mpr ⟨tid, htid, hidle⟩
  unfold ThreadPool.launch
  cases created with
  | true =>
    rw [if_pos rfl]
    refine ⟨?_, hinactive.symm, fun hno => absurd hno.symm Bool.false_ne_true⟩
    rw [card_active_launch htid hidle rfl, ← h.started]
    dsimp only
    omega
  | false =>
    rw [if_neg Bool.false_ne_true]
    refine ⟨?_, trivial⟩
    rw [card_active_launch htid hidle rfl, ← h.started]
    exact (congrArg _ (List.countP_cons_of_pos rfl)).trans (Nat.add_assoc _ _ _).symm

/-- Where all threads run, none is inactive. -/
theorem Tried.not_inactive (h : s.Tried cfg) (hall : cfg.maxThreads ≤ s.datumActiveThreads) :
    (s.arrival cfg).inactive = false := by
  have hstarted := h.started
  have hfull : (range cfg.maxThreads).card ≤ (s.active cfg).card := by
    rw [card_range]
    omega
  have hactive : s.active cfg = range cfg.maxThreads :=
    eq_of_subset_of_card_le (filter_subset _ _) hfull
  rw [← Bool.not_eq_true, inactive_arrival_iff]
  rintro ⟨tid, htid, hidle⟩
  have hmem : tid ∈ s.active cfg := hactive ▸ mem_range.mpr htid
  exact Bool.noConfusion ((mem_filter.mp hmem).2.symm.trans hidle)

theorem Tried.accept (h : s.Tried cfg) (fd : Int) (created : Bool) :
    (s.accept cfg fd created).Tried cfg := by
  unfold ThreadPool.accept
  split
  · split
    · exact h.finish rfl
    · next tid hfirst =>
      have hidle := List.find?_some hfirst
      rw [Bool.not_eq_true'] at hidle
      exact h.launch fd created (List.mem_range.mp (List.mem_of_find?_eq_some hfirst)) hidle
  · next hall =>
    have hall := Nat.le_of_not_lt hall
    exact ⟨h.started, h.not_inactive hall, hall⟩

theorem Tried.look (h : s.Tried cfg) {fd : Int} {came : Arrival} {i : Nat} {j tc : Int}
    {tid : Option Nat} (hphase : s.phase = .looking fd came i j tid tc) :
    (s.look cfg fd came i j tid tc).Tried cfg := by
  have hway := h.way
  rw [hphase] at hway
  unfold ThreadPool.look
  split
  · dsimp only
    split
    · exact ⟨h.started, hway⟩
    · exact ⟨h.started, hway⟩
  · cases tid with
    | none => exact h.finish rfl
    | some tid =>
      dsimp only
      split
      · exact h.finish rfl
      · exact ⟨h.started, hway.1.symm, fun _ => hway.2⟩

theorem Tried.place (h : s.Tried cfg) {fd : Int} {came : Arrival} {tid : Nat} {launched : Bool}
    (hplace : s.place cfg fd came tid launched = some s') : s'.Tried cfg := by
  rw [ThreadPool.place, Option.map_eq_some_iff] at hplace
  obtain ⟨result, -, rfl⟩ := hplace
  cases result with
  | none => exact h.finish rfl
  | some taken =>
    refine ⟨?_, trivial⟩
    show s.datumActiveThreads + (Placement.placed .. :: s.placements).countP _ = _
    rw [List.countP_cons_of_neg Bool.false_ne_true]
    exact h.started

theorem Tried.step (h : s.Tried cfg) {event : PoolEvent} (hstep : s.step cfg event = some s') :
    s'.Tried cfg := by
  cases event with
  | accept fd created =>
    simp only [ThreadPool.step] at hstep
    split at hstep
    · cases hstep
      exact h.accept fd created
    · cases hstep
  | look =>
    simp only [ThreadPool.step] at hstep
    split at hstep
    · next hphase =>
      cases hstep
      exact h.look hphase
    · cases hstep
  | place =>
    simp only [ThreadPool.step] at hstep
    split at hstep
    · exact h.place hstep
    · cases hstep
  | leave tid cid =>
    cases hstep
    exact ⟨h.started, h.way⟩

theorem IsStarted.tried (h : s.IsStarted cfg) : s.Tried cfg := by
  refine ⟨?_, ?_⟩
  · simp [h.datumActiveThreads, h.placements, active, h.isActive]
  · rw [h.phase]
    trivial

/-! ## Clients leave -/

/-- Where the counts are no higher, what was looked at is no more than it was. -/
theorem Looked.mono {loads loads' came : Loads} {i : Nat} {j tc : Int} {tid : Option Nat}
    (h : Looked cfg loads came i j tid tc) (hle : ∀ tid, loads' tid ≤ loads tid) :
    Looked cfg loads' came i j tid tc := by
  refine ⟨h.inRange, fun other hother => (hle other).trans (h.fewer other hother),
    ⟨(sum_le_sum fun other _ => hle other).trans h.counted.1, h.counted.2⟩, h.fewest, ?_⟩
  have hchosen := h.chosen
  cases tid with
  | none => exact hchosen
  | some tid => exact ⟨hchosen.1, (hle tid).trans hchosen.2.1, hchosen.2.2⟩

theorem Chosen.mono {loads loads' came : Loads} {tid : Nat} {launched : Bool}
    (h : Chosen cfg loads came tid launched) (hle : ∀ tid, loads' tid ≤ loads tid)
    (hnonneg : 0 ≤ loads' tid) : Chosen cfg loads' came tid launched := by
  have htid := hle tid
  refine ⟨h.inRange, Int.lt_of_le_of_lt htid h.room, fun hlaunched => ?_,
    fun hlaunched other hother => htid.trans (h.fewest hlaunched other hother),
    fun hlaunched => Int.lt_of_le_of_lt (total_le fun other _ => hle other) (h.below hlaunched)⟩
  have hempty := h.empty hlaunched
  omega

theorem Kept.leave (h : s.Kept cfg) {tid cid : Nat} (htid : tid < cfg.maxThreads)
    (hcid : cid < cfg.maxClientsThread) (hfd : (s.threads tid).fd cid ≠ 0) :
    (s.leave tid cid).Kept cfg := by
  have hsound := (h.threads tid).clientCountDecrement hcid hfd
  have hloads : (s.leave tid cid).loads = Function.update s.loads tid (s.loads tid - 1) :=
    loads_update s tid _ s.isActive s.datumActiveThreads s.phase s.placements
  have hle : ∀ other, (s.leave tid cid).loads other ≤ s.loads other := by
    intro other
    rw [hloads]
    by_cases hsame : other = tid
    · subst hsame
      rw [Function.update_self]
      omega
    · rw [Function.update_of_ne hsame]
  have hthreads : ∀ other, ((s.leave tid cid).threads other).Sound cfg.maxClientsThread :=
    sound_update h.threads tid hsound
  have htotal : total cfg (s.leave tid cid).loads ≤ total cfg s.loads :=
    total_le fun other _ => hle other
  refine ⟨⟨h.started, h.way⟩, hthreads,
    fun hfew other hother => (hle other).trans (h.alone hfew other hother), htotal.trans h.bounded,
    ?_, h.right⟩
  have hphase := h.phase
  show (s.leave tid cid).PhaseKept cfg s.phase
  cases hcase : s.phase with
  | idle => trivial
  | looking fd came i j chosen tc =>
    rw [hcase] at hphase
    exact ⟨hphase.1, hphase.2.mono hle⟩
  | placing fd came chosen launched =>
    rw [hcase] at hphase
    obtain ⟨hfd, hchosen, hbound, hall⟩ := hphase
    have hcounted := (hthreads chosen).counted
    refine ⟨hfd, hchosen.mono hle ?_, Int.lt_of_le_of_lt htotal hbound, hall⟩
    show 0 ≤ ((s.leave tid cid).threads chosen).connectedClients
    omega

/-! ## The listener -/

theorem Kept.refuse (h : s.Kept cfg) {came : Arrival} (hinactive : came.inactive = false)
    (hwhy : (∀ tid < cfg.maxThreads, cfg.maxClientsThread ≤ came.loads tid) ∨
      cfg.maxClients ≤ total cfg came.loads ∨ ∃ tid, .startFailed tid ∈ s.placements) :
    (s.finish (.refused came)).Kept cfg :=
  ⟨h.toTried.finish rfl, h.threads, h.alone, h.bounded, trivial,
    .cons ⟨hinactive, hwhy⟩ h.right⟩

/-- With all threads tried and not all running, the start of one has failed. -/
theorem Kept.exists_startFailed (h : s.Kept cfg) (hfew : s.datumActiveThreads < cfg.maxThreads)
    (hall : ∀ tid < cfg.maxThreads, s.isActive tid = true) :
    ∃ tid, .startFailed tid ∈ s.placements := by
  have hactive : s.active cfg = range cfg.maxThreads :=
    filter_true_of_mem fun tid htid => hall tid (mem_range.mp htid)
  have hstarted := h.started
  rw [hactive, card_range] at hstarted
  have hpos : 0 < s.placements.countP Placement.isStartFailed := by omega
  obtain ⟨placement, hmem, hfailed⟩ := List.countP_pos_iff.mp hpos
  cases placement with
  | startFailed tid => exact ⟨tid, hmem⟩
  | placed => cases hfailed
  | refused => cases hfailed

/-- While not all threads run, no other thread has more than one client. -/
theorem Kept.total_launch (h : s.Kept cfg) (hfew : s.datumActiveThreads < cfg.maxThreads)
    {tid : Nat}
    (htid : tid < cfg.maxThreads) :
    total cfg (Function.update s.loads tid 0) < max cfg.maxClients cfg.maxThreads := by
  have hle : total cfg (Function.update s.loads tid 0) ≤
      total cfg (Function.update (fun _ => 1) tid 0) := by
    apply total_le
    intro other hother
    by_cases hsame : other = tid
    · rw [hsame, Function.update_self, Function.update_self]
    · rw [Function.update_of_ne hsame, Function.update_of_ne hsame]
      have halone := h.alone hfew other hother
      split at halone <;> omega
  have hones : total cfg (fun _ => 1) = cfg.maxThreads := by simp [total]
  rw [total_update (fun _ => 1) htid, hones] at hle
  omega

theorem Kept.launch (h : s.Kept cfg) (hfew : s.datumActiveThreads < cfg.maxThreads) {fd : Int}
    (hfd : fd ≠ 0) (created : Bool) {tid : Nat} (htid : tid < cfg.maxThreads)
    (hidle : s.isActive tid = false) : (s.launch cfg fd created tid).Kept cfg := by
  have htried := h.toTried.launch fd created htid hidle
  have hsound := (isClean_clean cfg (s.threads tid)).sound cfg.maxClientsThread_pos
  have hthreads := sound_update h.threads tid hsound
  have htotal := h.total_launch hfew htid
  have halone : ∀ other < cfg.maxThreads, Function.update s.loads tid 0 other ≤
      if Function.update s.isActive tid true other then 1 else 0 := by
    intro other hother
    by_cases hsame : other = tid
    · subst hsame
      simp
    · rw [Function.update_of_ne hsame, Function.update_of_ne hsame]
      exact h.alone hfew other hother
  unfold ThreadPool.launch at htried ⊢
  cases created with
  | true =>
    rw [if_pos rfl] at htried ⊢
    have hloads := loads_update s tid ((s.threads tid).clean cfg.maxClientsThread)
      (Function.update s.isActive tid true) (s.datumActiveThreads + 1)
      (.placing fd (s.arrival cfg) tid true) s.placements
    have hno {P : Prop} (hlaunched : true = false) : P := absurd hlaunched.symm Bool.false_ne_true
    refine ⟨htried, hthreads, fun _ => ?_, ?_,
      ⟨hfd, ⟨htid, ?_, fun _ => ?_, hno, hno⟩, ?_, ?_⟩,
      h.right⟩
    · rw [hloads]
      exact halone
    · rw [hloads]
      exact Int.le_of_lt htotal
    · rw [hloads, Function.update_self]
      have hpos := cfg.maxClientsThread_pos
      show (0 : Int) < _
      omega
    · rw [hloads, Function.update_self]
      rfl
    · rw [hloads]
      exact htotal
    · exact fun _ => Function.update_self _ _ _
  | false =>
    rw [if_neg Bool.false_ne_true] at htried ⊢
    have hloads := loads_update s tid ((s.threads tid).clean cfg.maxClientsThread)
      (Function.update s.isActive tid true) s.datumActiveThreads .idle
      (.startFailed tid :: s.placements)
    refine ⟨htried, hthreads, fun _ => ?_, ?_, trivial, .cons htid h.right⟩
    · exact hloads ▸ halone
    · exact hloads ▸ Int.le_of_lt htotal

theorem Kept.accept (h : s.Kept cfg) {fd : Int} (hfd : fd ≠ 0) (created : Bool) :
    (s.accept cfg fd created).Kept cfg := by
  have htried := h.toTried.accept fd created
  unfold ThreadPool.accept at htried ⊢
  split
  · next hfew =>
    split
    · next hnone =>
      have hactive : ∀ tid < cfg.maxThreads, s.isActive tid = true := by
        intro tid htid
        simpa using List.find?_eq_none.mp hnone tid (List.mem_range.mpr htid)
      refine h.refuse ?_ (.inr (.inr (h.exists_startFailed hfew hactive)))
      rw [← Bool.not_eq_true, inactive_arrival_iff]
      rintro ⟨tid, htid, hidle⟩
      exact Bool.noConfusion ((hactive tid htid).symm.trans hidle)
    · next tid hfirst =>
      have hidle := List.find?_some hfirst
      rw [Bool.not_eq_true'] at hidle
      exact h.launch hfew hfd created (List.mem_range.mp (List.mem_of_find?_eq_some hfirst)) hidle
  · next hall =>
    rw [if_neg hall] at htried
    refine ⟨htried, h.threads, h.alone, h.bounded, ?_, h.right⟩
    refine ⟨hfd, Nat.zero_le _, fun _ _ => Int.le_refl _, ?_, ?_, rfl⟩
    · exact ⟨Int.le_refl _, Int.le_refl _⟩
    · intro other hother
      exact absurd hother (Nat.not_lt_zero other)

/-- One more count is read, and is the lowest so far or not. -/
theorem Looked.next {loads came : Loads} {i : Nat} {j tc : Int} {tid : Option Nat}
    (h : Looked cfg loads came i j tid tc) (hi : i < cfg.maxThreads) :
    (loads i < j → Looked cfg loads came (i + 1) (loads i) (some i) (tc + loads i)) ∧
    (¬ loads i < j → Looked cfg loads came (i + 1) j tid (tc + loads i)) := by
  have hcame := h.fewer i hi
  have hcounted : ∑ other ∈ range (i + 1), loads other ≤ tc + loads i ∧
      tc + loads i ≤ ∑ other ∈ range (i + 1), came other := by
    rw [sum_range_succ, sum_range_succ]
    have hbefore := h.counted
    omega
  have hchosen := h.chosen
  constructor
  · intro hlower
    refine ⟨hi, h.fewer, hcounted, fun other hother => ?_, Nat.lt_succ_self i,
      Int.le_refl _, ?_⟩
    · rcases Nat.lt_or_eq_of_le (Nat.le_of_lt_succ hother) with hold | rfl
      · exact (Int.le_of_lt hlower).trans (h.fewest other hold)
      · exact hcame
    · cases tid with
      | none => exact hchosen ▸ hlower
      | some tid => exact hlower.trans hchosen.2.2
  · intro hnot
    refine ⟨hi, h.fewer, hcounted, fun other hother => ?_, ?_⟩
    · rcases Nat.lt_or_eq_of_le (Nat.le_of_lt_succ hother) with hold | rfl
      · exact h.fewest other hold
      · exact (Int.not_lt.mp hnot).trans hcame
    · cases tid with
      | none => exact hchosen
      | some tid => exact ⟨Nat.lt_succ_of_lt hchosen.1, hchosen.2⟩

theorem Kept.look (h : s.Kept cfg) {fd : Int} {came : Arrival} {i : Nat} {j tc : Int}
    {tid : Option Nat} (hphase : s.phase = .looking fd came i j tid tc) :
    (s.look cfg fd came i j tid tc).Kept cfg := by
  have htried := h.toTried.look hphase
  have hway := h.way
  have hkept := h.phase
  rw [hphase] at hway hkept
  obtain ⟨hfd, hlooked⟩ := hkept
  unfold ThreadPool.look at htried ⊢
  split
  · next hi =>
    rw [if_pos hi] at htried
    dsimp only at htried ⊢
    split
    · next hlower =>
      rw [if_pos hlower] at htried
      exact ⟨htried, h.threads, h.alone, h.bounded, ⟨hfd, (hlooked.next hi).1 hlower⟩,
        h.right⟩
    · next hnot =>
      rw [if_neg hnot] at htried
      exact ⟨htried, h.threads, h.alone, h.bounded, ⟨hfd, (hlooked.next hi).2 hnot⟩,
        h.right⟩
  · next hend =>
    rw [if_neg hend] at htried
    obtain rfl : i = cfg.maxThreads := Nat.le_antisymm hlooked.inRange (Nat.le_of_not_lt hend)
    have hchosen := hlooked.chosen
    cases tid with
    | none =>
      apply h.refuse hway.1
      left
      intro other hother
      have hfewest := hlooked.fewest other hother
      rwa [show j = cfg.maxClientsThread from hchosen] at hfewest
    | some tid =>
      obtain ⟨htid, hleast, hroom⟩ := hchosen
      dsimp only at htried ⊢
      split
      · next hfull =>
        exact h.refuse hway.1 (Or.inr (Or.inl (hfull.trans hlooked.counted.2)))
      · next hbelow =>
        rw [if_neg hbelow] at htried
        have htotal : total cfg s.loads < cfg.maxClients :=
          Int.lt_of_le_of_lt hlooked.counted.1 (Int.not_le.mp hbelow)
        have hno {P : Prop} (hlaunched : false = true) : P := absurd hlaunched Bool.false_ne_true
        refine ⟨htried, h.threads, h.alone, h.bounded,
          ⟨hfd, ⟨htid, ?_, hno, ?_, ?_⟩, ?_, hno⟩,
          h.right⟩
        · exact Int.lt_of_le_of_lt hleast hroom
        · exact fun _ other hother => hleast.trans (hlooked.fewest other hother)
        · exact fun _ => htotal
        · exact Int.lt_of_lt_of_le htotal (le_max_left _ _)

theorem Kept.place (h : s.Kept cfg) {fd : Int} {came : Arrival} {tid : Nat} {launched : Bool}
    (hphase : s.phase = .placing fd came tid launched)
    (hplace : s.place cfg fd came tid launched = some s') : s'.Kept cfg := by
  have htried := h.toTried.place hplace
  have hway := h.way
  have hkept := h.phase
  rw [hphase] at hway hkept
  obtain ⟨hnew, hall⟩ := hway
  obtain ⟨hfd, hchosen, hbound, hactive⟩ := hkept
  have hsound := h.threads tid
  obtain ⟨found, hfound, hopen, hlast, hassign⟩ :=
    hsound.assignToThread_eq hchosen.room (Nat.le_refl _) fd
  have htaken := hsound.taken hchosen.room hfound hopen hlast hfd
  rw [ThreadPool.place, hassign] at hplace
  cases hplace
  have hright : Placement.Right cfg
      (.placed tid (s.threads tid).nextOpenClientIndex launched came s.loads) s.placements :=
    ⟨hnew, hchosen, (hsound.free hchosen.room).1, hbound⟩
  dsimp only [ThreadPool.finish]
  refine ⟨htried, sound_update h.threads tid htaken, fun hfew other hother => ?_, ?_, trivial,
    .cons hright h.right⟩
  · rw [loads_update]
    by_cases hsame : other = tid
    · -- the thread was started for the client
      subst hsame
      rw [Function.update_self]
      cases hlaunched : launched with
      | true =>
        have hempty : (s.threads other).connectedClients = 0 := hchosen.empty hlaunched
        rw [if_pos (hactive hlaunched), hempty]
        rfl
      | false => exact absurd hfew (Nat.not_lt.mpr (hall hlaunched))
    · rw [Function.update_of_ne hsame]
      exact h.alone hfew other hother
  · rw [loads_update, total_update _ hchosen.inRange]
    show total cfg s.loads - s.loads tid + (s.loads tid + 1) ≤ _
    omega

theorem Kept.step (h : s.Kept cfg) {event : PoolEvent} (hcond : s.Allows cfg event)
    (hstep : s.step cfg event = some s') : s'.Kept cfg := by
  cases event with
  | accept fd created =>
    simp only [ThreadPool.step] at hstep
    split at hstep
    · cases hstep
      exact h.accept hcond created
    · cases hstep
  | look =>
    simp only [ThreadPool.step] at hstep
    split at hstep
    · next hphase =>
      cases hstep
      exact h.look hphase
    · cases hstep
  | place =>
    simp only [ThreadPool.step] at hstep
    split at hstep
    · next hphase => exact h.place hphase hstep
    · cases hstep
  | leave tid cid =>
    cases hstep
    exact h.leave hcond.1 hcond.2.1 hcond.2.2

theorem IsStarted.kept (h : s.IsStarted cfg) : s.Kept cfg := by
  have hloads : s.loads = fun _ => 0 := funext fun tid => (h.threads tid).connectedClients
  have htotal : total cfg s.loads = 0 := by simp [total, hloads]
  refine ⟨h.tried, fun tid => (h.threads tid).sound cfg.maxClientsThread_pos,
    fun _ other hother => ?_, ?_, ?_, ?_⟩
  · simp [hloads, h.isActive]
  · rw [htotal]
    omega
  · rw [h.phase]
    trivial
  · rw [h.placements]
    exact .nil

end ThreadPool

theorem ThreadPool.kept_of_reachable {cfg : ServerLimits} {s : ThreadPool}
    (h : (poolSystem cfg).ReachedBy (fun s event => s.Allows cfg event)
      (fun s => s.IsStarted cfg) s) : s.Kept cfg :=
  h.invariant (fun _ hstart => hstart.kept) fun _ _ _ hkept hcond hstep => hkept.step hcond hstep

/-- What holds of the pool in every run, whatever clients leave while the listener looks at the
    counts. No limit is passed, but that the server may have a client for each thread; every
    placement was right; and a connection that has a thread gets a free slot there. -/
theorem placements_of_reachable {cfg : ServerLimits} {s : ThreadPool}
    (h : (poolSystem cfg).ReachedBy (fun s event => s.Allows cfg event)
      (fun s => s.IsStarted cfg) s) :
    ThreadPool.total cfg s.loads ≤ max cfg.maxClients cfg.maxThreads ∧
    (∀ tid, s.loads tid = ((s.threads tid).occupied cfg.maxClientsThread).card ∧
      s.loads tid ≤ cfg.maxClientsThread) ∧
    Always (Placement.Right cfg) s.placements ∧
    ∀ fd came tid launched, s.phase = .placing fd came tid launched →
      ∃ cid < cfg.maxClientsThread, (s.threads tid).fd cid = 0 ∧
        ∃ s', s.place cfg fd came tid launched = some s' ∧ (s'.threads tid).fd cid = fd ∧
          s'.placements = .placed tid cid launched came s.loads :: s.placements := by
  have hkept := ThreadPool.kept_of_reachable h
  refine ⟨hkept.bounded, fun tid => ⟨(hkept.threads tid).counted, hkept.loads_le tid⟩,
    hkept.right, ?_⟩
  intro fd came tid launched hphase
  have hplacing := hkept.phase
  rw [hphase] at hplacing
  have hroom := hplacing.2.1.room
  have hsound := hkept.threads tid
  obtain ⟨hcid, hfree⟩ := hsound.free hroom
  obtain ⟨found, -, -, -, hassign⟩ := hsound.assignToThread_eq hroom (Nat.le_refl _) fd
  rw [ThreadPool.place, hassign]
  refine ⟨_, hcid, hfree, _, rfl, ?_, rfl⟩
  simp [ThreadPool.finish]

instance (cfg : ServerLimits) (s : ThreadPool) : (event : PoolEvent) →
  Decidable (s.Allows cfg event)
  | .accept fd _ => inferInstanceAs (Decidable (fd ≠ 0))
  | .look => inferInstanceAs (Decidable True)
  | .place => inferInstanceAs (Decidable True)
  | .leave tid cid => inferInstanceAs (Decidable (_ ∧ _ ∧ (s.threads tid).fd cid ≠ 0))

/-- Two threads for two clients each, and three clients in all. -/
def smallPool : ServerLimits where
  maxThreads := 2
  maxClientsThread := 2
  maxClients := 3
  maxThreads_le := by decide
  maxClientsThread_pos := by decide
  maxClientsThread_le := by decide

def freshPool : ThreadPool where
  threads := fun _ => ⟨fun _ => 0, 0, 0⟩
  isActive := fun _ => false
  datumActiveThreads := 0
  phase := .idle
  placements := []

theorem freshPool_isStarted : freshPool.IsStarted smallPool :=
  ⟨fun _ => ⟨fun _ _ => rfl, rfl, rfl⟩, fun _ => rfl, rfl, rfl, rfl⟩

/-- A client of the second thread leaves before its count is read, so that the third one is
    put there. -/
theorem placements_of_reachable_left :
    ∃ s, (poolSystem smallPool).ReachedBy (fun s event => s.Allows smallPool event)
      (fun s => s.IsStarted smallPool) s ∧ s.loads 0 = 1 ∧ s.loads 1 = 1 ∧
      ThreadPool.total smallPool s.loads ≤ max smallPool.maxClients smallPool.maxThreads ∧
      Always (Placement.Right smallPool) s.placements := by
  obtain ⟨s, hrun, htest⟩ := System.exists_reachedBy_of_replay (poolSystem smallPool)
    freshPool_isStarted (fun s event => decide (s.Allows smallPool event))
    [.accept 5 true, .place, .accept 6 true, .place, .accept 7 true, .look, .leave 1 0, .look,
      .look, .place]
    (fun s => decide (s.loads 0 = 1 ∧ s.loads 1 = 1)) (fun _ _ => of_decide_eq_true)
    (by decide +kernel)
  obtain ⟨hfirst, hsecond⟩ := of_decide_eq_true htest
  obtain ⟨htotal, -, hright, -⟩ := placements_of_reachable hrun
  exact ⟨s, hrun, hfirst, hsecond, htotal, hright⟩

/-! ## Threads that could not be started -/

def Placement.isPlaced : Placement → Bool
  | .placed .. => true
  | _ => false

namespace ThreadPool

variable {cfg : ServerLimits} {s s' : ThreadPool}

/-- The connections that got a slot. -/
def served (s : ThreadPool) : Nat := s.placements.countP Placement.isPlaced

def pending (s : ThreadPool) : Nat :=
  match s.phase with
  | .placing .. => 1
  | _ => 0

def HasFailed (s : ThreadPool) : Prop := ∃ tid, .startFailed tid ∈ s.placements

/-- The thread is counted as one that may still be started, for good. -/
theorem Tried.few_of_hasFailed (h : s.Tried cfg) (hfailed : s.HasFailed) :
    s.datumActiveThreads < cfg.maxThreads := by
  obtain ⟨tid, hmem⟩ := hfailed
  have hpos : 0 < s.placements.countP Placement.isStartFailed :=
    List.countP_pos_iff.mpr ⟨_, hmem, rfl⟩
  have hcard := card_filter_le (range cfg.maxThreads) fun tid => s.isActive tid
  have hstarted := h.started
  rw [card_range] at hcard
  unfold active at hstarted
  omega

theorem served_finish_placed (s : ThreadPool) {placement : Placement}
    (hplaced : placement.isPlaced = true) : (s.finish placement).served = s.served + 1 :=
  List.countP_cons_of_pos hplaced

theorem served_finish (s : ThreadPool) {placement : Placement} (hno : placement.isPlaced = false) :
    (s.finish placement).served = s.served :=
  List.countP_cons_of_neg (by simp [hno])

/-- A thread that is tried for a connection is one more, and serves the connection or nobody. -/
theorem HasFailed.launch (hfailed : s.HasFailed) (fd : Int) (created : Bool) {tid : Nat}
    (htid : tid < cfg.maxThreads) (hidle : s.isActive tid = false) :
    (s.launch cfg fd created tid).HasFailed ∧
      (s.launch cfg fd created tid).served + (s.launch cfg fd created tid).pending +
          (s.active cfg).card ≤
        s.served + s.pending + ((s.launch cfg fd created tid).active cfg).card := by
  obtain ⟨failed, hmem⟩ := hfailed
  cases created with
  | true =>
    have hcard : ((s.launch cfg fd true tid).active cfg).card = (s.active cfg).card + 1 :=
      card_active_launch htid hidle rfl
    refine ⟨⟨failed, hmem⟩, ?_⟩
    rw [hcard]
    show s.served + 1 + (s.active cfg).card ≤ s.served + s.pending + ((s.active cfg).card + 1)
    omega
  | false =>
    have hcard : ((s.launch cfg fd false tid).active cfg).card = (s.active cfg).card + 1 :=
      card_active_launch htid hidle rfl
    have hserved : (s.launch cfg fd false tid).served = s.served := served_finish _ rfl
    refine ⟨⟨failed, List.mem_cons_of_mem _ hmem⟩, ?_⟩
    rw [hcard, hserved]
    show s.served + 0 + (s.active cfg).card ≤ s.served + s.pending + ((s.active cfg).card + 1)
    omega

theorem HasFailed.accept (hfailed : s.HasFailed) (hfew : s.datumActiveThreads < cfg.maxThreads)
    (fd : Int) (created : Bool) :
    (s.accept cfg fd created).HasFailed ∧
      (s.accept cfg fd created).served + (s.accept cfg fd created).pending + (s.active cfg).card ≤
        s.served + s.pending + ((s.accept cfg fd created).active cfg).card := by
  unfold ThreadPool.accept
  rw [if_pos hfew]
  split
  · obtain ⟨failed, hmem⟩ := hfailed
    refine ⟨⟨failed, List.mem_cons_of_mem _ hmem⟩, ?_⟩
    rw [served_finish s rfl]
    exact Nat.add_le_add_right (Nat.le_add_right _ _) _
  · next tid hfirst =>
    have htid := List.mem_range.mp (List.mem_of_find?_eq_some hfirst)
    have hinactive := List.find?_some hfirst
    rw [Bool.not_eq_true'] at hinactive
    exact hfailed.launch fd created htid hinactive

/-- A connection that waits for its slot gets one, or none. -/
theorem HasFailed.place (hfailed : s.HasFailed) {fd : Int} {came : Arrival} {tid : Nat}
    {launched : Bool} (hphase : s.phase = .placing fd came tid launched)
    (hplace : s.place cfg fd came tid launched = some s') :
    s'.HasFailed ∧ s'.served + s'.pending + (s.active cfg).card ≤
      s.served + s.pending + (s'.active cfg).card := by
  obtain ⟨failed, hmem⟩ := hfailed
  have hpending : s.pending = 1 := by rw [pending, hphase]
  rw [ThreadPool.place, Option.map_eq_some_iff] at hplace
  obtain ⟨result, -, rfl⟩ := hplace
  cases result with
  | none =>
    refine ⟨⟨failed, List.mem_cons_of_mem _ hmem⟩, ?_⟩
    dsimp only
    rw [served_finish s rfl]
    exact Nat.add_le_add_right (Nat.le_add_right _ _) _
  | some taken =>
    refine ⟨⟨failed, List.mem_cons_of_mem _ hmem⟩, ?_⟩
    dsimp only
    rw [hpending, served_finish_placed _ rfl]
    exact Nat.le_refl _

/-- From then on a connection is served only by a thread that is started for it. -/
theorem Tried.served_step (h : s.Tried cfg) (hfailed : s.HasFailed) {event : PoolEvent}
    (hstep : s.step cfg event = some s') :
    s'.HasFailed ∧ s'.served + s'.pending + (s.active cfg).card ≤
      s.served + s.pending + (s'.active cfg).card := by
  have hfew := h.few_of_hasFailed hfailed
  cases event with
  | accept fd created =>
    simp only [ThreadPool.step] at hstep
    split at hstep
    · cases hstep
      exact hfailed.accept hfew fd created
    · cases hstep
  | look =>
    simp only [ThreadPool.step] at hstep
    split at hstep
    · next hphase =>
      have hway := h.way
      rw [hphase] at hway
      exact absurd hfew (Nat.not_lt.mpr hway.2)
    · cases hstep
  | place =>
    simp only [ThreadPool.step] at hstep
    split at hstep
    · next fd came tid launched hphase => exact hfailed.place hphase hstep
    · cases hstep
  | leave tid cid =>
    cases hstep
    exact ⟨hfailed, Nat.le_refl _⟩

end ThreadPool

theorem ThreadPool.tried_of_reachable {cfg : ServerLimits} {s : ThreadPool}
    (h : (poolSystem cfg).Reachable (fun s => s.IsStarted cfg) s) : s.Tried cfg :=
  h.invariant (fun _ hstart => hstart.tried) fun _ _ _ htried _ hstep => htried.step hstep

/-- Once the start of a thread has failed, the server takes no more connections than there are
    threads it has not tried, however many clients leave, and then refuses every one. -/
theorem served_le_of_startFailed {cfg : ServerLimits} {s s' : ThreadPool}
    (h : (poolSystem cfg).Reachable (fun s => s.IsStarted cfg) s)
    {tid : Nat} (hfailed : .startFailed tid ∈ s.placements) (hidle : s.phase = .idle)
    (hrun : (poolSystem cfg).Reachable (· = s) s') :
    s'.served + (s.active cfg).card ≤ s.served + cfg.maxThreads ∧
    ((s'.active cfg).card = cfg.maxThreads → ∀ fd created,
      s'.accept cfg fd created = s'.finish (.refused (s'.arrival cfg))) := by
  have htried := ThreadPool.tried_of_reachable h
  have hafter : s'.Tried cfg ∧ s'.HasFailed ∧ s'.served + s'.pending + (s.active cfg).card ≤
      s.served + s.pending + (s'.active cfg).card := by
    induction hrun with
    | start hstart =>
      subst hstart
      exact ⟨htried, ⟨tid, hfailed⟩, Nat.le_refl _⟩
    | step _ _ hstep ih =>
      obtain ⟨hmid, hmem, hle⟩ := ih
      obtain ⟨hstill, hmore⟩ := hmid.served_step hmem hstep
      exact ⟨hmid.step hstep, hstill, by omega⟩
  obtain ⟨htried', hfailed', hle⟩ := hafter
  have hpending : s.pending = 0 := by rw [ThreadPool.pending, hidle]
  have hcard := card_filter_le (range cfg.maxThreads) fun tid => s'.isActive tid
  rw [card_range] at hcard
  constructor
  · unfold ThreadPool.active at hle ⊢
    omega
  · intro hall fd created
    have hrange : s'.active cfg = range cfg.maxThreads :=
      eq_of_subset_of_card_le (filter_subset _ _) (by rw [card_range, hall])
    have hnone : (List.range cfg.maxThreads).find? (fun i => !s'.isActive i) = none := by
      apply List.find?_eq_none.mpr
      intro other hother
      have hmem : other ∈ s'.active cfg := hrange ▸ mem_range.mpr (List.mem_range.mp hother)
      simp [(mem_filter.mp hmem).2]
    rw [ThreadPool.accept, if_pos (htried'.few_of_hasFailed hfailed'), hnone]

/-- The first thread cannot be started. One connection is served, and nobody after it. -/
theorem served_le_of_startFailed_one :
    ∃ s s', (poolSystem smallPool).Reachable (fun s => s.IsStarted smallPool) s ∧
      (poolSystem smallPool).Reachable (· = s) s' ∧
      s.served = 0 ∧ s'.served = 1 ∧ s'.loads 1 = 0 ∧
      ∀ fd created, s'.accept smallPool fd created =
        s'.finish (.refused (s'.arrival smallPool)) := by
  have hstart : (poolSystem smallPool).Reachable (fun s => s.IsStarted smallPool) freshPool :=
    .start freshPool_isStarted
  have hfailed := hstart.step (a := PoolEvent.accept 5 false) trivial rfl
  have hbegin : (poolSystem smallPool).Reachable (· = freshPool.accept smallPool 5 false)
      (freshPool.accept smallPool 5 false) := .start rfl
  have hlaunched := hbegin.step (a := PoolEvent.accept 6 true) trivial rfl
  have hplaced := hlaunched.step (a := PoolEvent.place) trivial rfl
  have hleft := hplaced.step (a := PoolEvent.leave 1 0) trivial rfl
  have hmem : Placement.startFailed 0 ∈ (freshPool.accept smallPool 5 false).placements :=
    List.mem_cons_self
  obtain ⟨-, hrefused⟩ := served_le_of_startFailed hfailed hmem rfl hleft
  exact ⟨_, _, hfailed, hleft, rfl, rfl, rfl, hrefused (by decide)⟩

end ChirpGateway
