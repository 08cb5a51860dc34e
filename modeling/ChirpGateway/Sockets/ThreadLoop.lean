import ChirpGateway.Lib.Transition
import ChirpGateway.Sockets.Slots

/-!
# The loop of a socket thread

One thread serves its clients, while the listener hands it connections and the API asks
for clients to be killed (`datum_sockets.c:137-380`, `datum_api.c:605-663`,
`datum_stratum.c:368-390`, `655-700`). Only the scan for new connections and the
bookkeeping hold the lock of the thread; everything else may happen between any two
slots.
-/

namespace ChirpGateway

open Transition

/-- The timeouts of idle clients, in seconds; 0 is none. -/
structure IdleTimeouts where
  noSubscribe : UInt64
  noShare : UInt64
  maxLastWork : UInt64

/-- A time from which on a client is not idle. -/
def idleLimit (loopTsms timeout : UInt64) : UInt64 :=
  if timeout > 0 then loopTsms - timeout * 1000 else 1

/-- The check of `datum_stratum_v1_socket_thread_loop` for idle clients. -/
def SlotMiner.isIdle (cfg : IdleTimeouts) (loopTsms : UInt64) (m : SlotMiner) : Bool :=
  (cfg.noSubscribe > 0 || cfg.noShare > 0 || cfg.maxLastWork > 0) &&
    if m.subscribed then
      if m.shareCountAccepted > 0 then m.lastShareTsms < idleLimit loopTsms cfg.maxLastWork
      else m.connectTsms < idleLimit loopTsms cfg.noShare
    else m.connectTsms < idleLimit loopTsms cfg.noSubscribe

/-- Where the thread is. A pass over the slots has a list of those it still goes through. -/
inductive ThreadPhase (maxClients : Nat) where
  | top
  /-- under the lock -/
  | scanning (todo : List (Fin maxClients))
  | requests
  | emptying (todo : List (Fin maxClients))
  | killing (todo : List (Fin maxClients))
  /-- before the loop function, which is also called when there are no clients -/
  | loopCall (idle : Bool)
  | looping (idle : Bool)
  | sending (todo : List (Fin maxClients))
  | polling
  | serving (events : List (Fin maxClients))
  /-- a client was served, and is polled again if it is still there -/
  | rearming (slot : Fin maxClients) (events : List (Fin maxClients))

/-- A thread and its clients. -/
structure SocketThread (maxClients : Nat) where
  table : SlotTable maxClients
  hasNewClients : Bool
  emptyRequest : Bool
  hasClientKillRequest : Bool
  phase : ThreadPhase maxClients
  loopTsms : UInt64
  nextKickCheckTsms : UInt64
  /-- the connections that were closed on request, each with those it was made for -/
  kills : List (Option Nat × List (Option Nat))

/-- What `send` returns. -/
inductive SendResult where
  | sent (count : Nat)
  | again
  | error

/-- What comes of an event: what the commands of the client leave in the miner's data, what
    they reply, and whether the client has to go. -/
inductive ReceiveResult where
  | again
  | closed
  | lines (m : SlotMiner) (replies : List (List UInt8)) (punted : Bool)

/-- What happens to a thread. A request of the API is meant for a connection, or for
    none; it sets the flag of the slot first, and then, in a step of its own, the one of
    the thread. -/
inductive SocketEvent (maxClients : Nat) where
  | assign (fd : Nat)
  | killClient (slot : Fin maxClients) (target : Option Nat)
  | killClient2 (slot : Fin maxClients) (target : Option Nat) (connectTsms uniqueId : UInt64)
  | raiseKill
  | emptyThread
  | lock
  | scanSlot (added : Bool) (uniqueId currentTimeMillis : UInt64)
  | takeRequests
  | emptySlot
  | killSlot
  | callLoop (currentTimeMillis : UInt64)
  /-- the loop function sends work to a client -/
  | notify (slot : Fin maxClients) (pieces : List (List UInt8))
  /-- the loop function finds an idle client -/
  | kick (slot : Fin maxClients)
  | loopDone
  | sendSlot (result : SendResult)
  | poll (events : List (Fin maxClients))
  | receive (result : ReceiveResult)
  | rearm (modified : Bool)

/-- The thread goes on to the next event, or to its next turn. -/
def ThreadPhase.serve {maxClients : Nat} : List (Fin maxClients) → ThreadPhase maxClients
  | [] => .top
  | events => .serving events

namespace SlotTable

variable {maxClients : Nat} (t : SlotTable maxClients)

/-- The scan for new connections, at one slot. -/
def scanSlot (slot : Fin maxClients) (added : Bool) (uniqueId loopTsms currentTimeMillis : UInt64) :
    SlotTable maxClients :=
  let c := t.slots slot
  if c.newConnection then
    if added then
      t.setSlot slot
        ({ c.begin with polled := true }.clientNew uniqueId loopTsms currentTimeMillis)
    else (t.setSlot slot c.begin).closeClient slot
  else t

/-- The send pass, at one slot; `none` is a result that `send` does not have. -/
def sendSlot (slot : Fin maxClients) (result : SendResult) : Option (SlotTable maxClients) :=
  let c := t.slots slot
  if c.fd ≠ 0 ∧ c.box.queued ≠ [] then
    match result with
    | .sent count =>
      if 0 < count ∧ count ≤ c.box.queued.length then
        some (t.setSlot slot { c with box := c.box.transmit count })
      else none
    | .again => some t
    | .error => some (t.closeClient slot)
  else some t

/-- A client is served, unless there is nothing to read after all. -/
def receive (slot : Fin maxClients) : ReceiveResult → SlotTable maxClients
  | .again => t
  | .closed => t.closeClient slot
  | .lines m replies punted =>
    let t := t.setSlot slot ({ t.slots slot with m }.queue replies)
    if punted then t.closeClient slot else t

end SlotTable

namespace SocketThread

variable {maxClients : Nat} (cfg : IdleTimeouts) (s : SocketThread maxClients)

/-- The flag of a slot is set. -/
def requestKill (slot : Fin maxClients) (target : Option Nat) : SocketThread maxClients :=
  { s with table := s.table.setSlot slot ((s.table.slots slot).requestKill target) }

/-- The thread has dealt with the requests. -/
def clearRequests : SocketThread maxClients :=
  { s with emptyRequest := false, hasClientKillRequest := false }

/-- A slot at the kill pass. -/
def killSlot (slot : Fin maxClients) : SocketThread maxClients :=
  let c := s.table.slots slot
  if c.fd ≠ 0 ∧ c.killRequest = true then
    { s with
      table := (s.table.setSlot slot
        { c with killRequest := false, requestedFor := [] }).closeClient slot
      kills := (c.occupant, c.requestedFor) :: s.kills }
  else s

/-- What the listener and the API do. -/
def disturb : SocketEvent maxClients → Option (SocketThread maxClients)
  | .assign fd =>
    match s.phase with
    | .scanning _ => none
    | _ => (s.table.assignToThread fd).map fun table => { s with table, hasNewClients := true }
  | .killClient slot target => some (s.requestKill slot target)
  | .killClient2 slot target connectTsms uniqueId =>
    let m := (s.table.slots slot).m
    if m.connectTsms = connectTsms ∧ m.uniqueId = uniqueId then some (s.requestKill slot target)
    else none
  | .raiseKill => some { s with hasClientKillRequest := true }
  | .emptyThread => some { s with emptyRequest := true }
  | _ => none

/-- What the thread does, where it is. -/
def advance : ThreadPhase maxClients → SocketEvent maxClients → Option (SocketThread maxClients)
  | .top, .lock =>
    if s.table.connectedClients = 0 then some { s with phase := .loopCall true }
    else if s.hasNewClients then some { s with phase := .scanning (List.finRange maxClients) }
    else some { s with phase := .requests }
  | .scanning (slot :: todo), .scanSlot added uniqueId now =>
    some { s with
      table := s.table.scanSlot slot added uniqueId s.loopTsms now
      phase := .scanning todo }
  | .scanning [], .scanSlot _ _ _ => some { s with hasNewClients := false, phase := .requests }
  | .requests, .takeRequests =>
    if s.emptyRequest then some { s with phase := .emptying (List.finRange maxClients) }
    else if s.hasClientKillRequest then some { s with phase := .killing (List.finRange maxClients) }
    else some { s.clearRequests with phase := .loopCall false }
  | .emptying (slot :: todo), .emptySlot =>
    some { s with
      table := if (s.table.slots slot).fd ≠ 0 then s.table.closeClient slot else s.table
      phase := .emptying todo }
  | .emptying [], .emptySlot => some { s.clearRequests with phase := .loopCall false }
  | .killing (slot :: todo), .killSlot => some { s.killSlot slot with phase := .killing todo }
  | .killing [], .killSlot => some { s.clearRequests with phase := .loopCall false }
  | .loopCall idle, .callLoop now => some { s with loopTsms := now, phase := .looping idle }
  | .looping _, .notify slot pieces =>
    let c := s.table.slots slot
    if c.fd ≠ 0 ∧ c.m.subscribed = true then
      some { s with table := s.table.setSlot slot (c.queue pieces) }
    else none
  | .looping _, .kick slot =>
    let c := s.table.slots slot
    if s.nextKickCheckTsms ≤ s.loopTsms ∧ c.fd ≠ 0 ∧ c.m.isIdle cfg s.loopTsms = true then
      some { s.requestKill slot c.minerOf with hasClientKillRequest := true }
    else none
  | .looping idle, .loopDone =>
    let nextKickCheckTsms :=
      if s.nextKickCheckTsms ≤ s.loopTsms then s.loopTsms + 11150 else s.nextKickCheckTsms
    if idle then some { s.clearRequests with nextKickCheckTsms, phase := .top }
    else some { s with nextKickCheckTsms, phase := .sending (List.finRange maxClients) }
  | .sending (slot :: todo), .sendSlot result =>
    (s.table.sendSlot slot result).map fun table => { s with table, phase := .sending todo }
  | .sending [], .sendSlot _ => some { s with phase := .polling }
  | .polling, .poll events =>
    if events.Nodup ∧ ∀ slot ∈ events, (s.table.slots slot).polled = true then
      some { s with phase := .serve events }
    else none
  | .serving (_ :: events), .receive .again => some { s with phase := .serve events }
  | .serving (slot :: events), .receive result =>
    some { s with table := s.table.receive slot result, phase := .rearming slot events }
  | .rearming slot events, .rearm modified =>
    let c := s.table.slots slot
    if c.fd = 0 then some { s with phase := .serve events }
    else if modified then
      if c.polled then some { s with phase := .serve events } else none
    else some { s with table := s.table.closeClient slot, phase := .serve events }
  | _, _ => none

def step (event : SocketEvent maxClients) : Option (SocketThread maxClients) :=
  match event with
  | .assign _ | .killClient _ _ | .killClient2 _ _ _ _ | .raiseKill | .emptyThread =>
    s.disturb event
  | _ => s.advance cfg s.phase event

end SocketThread

/-- The runs of a thread. -/
def socketSystem (cfg : IdleTimeouts) (maxClients : Nat) :
    System (SocketThread maxClients) (SocketEvent maxClients) where
  step s event := s.step cfg event

/-- A thread that was just started: `clean_thread_data` has cleared its slots, whose
    miners' data is still that of the allocation. -/
structure SocketThread.IsStarted {maxClients : Nat} (s : SocketThread maxClients) : Prop where
  slots_eq : ∀ slot, s.table.slots slot = {
    newConnection := false, fd := 0, box := ⟨[], []⟩, killRequest := false, m := .zero
    polled := false, occupant := none, minerOf := none, requestedFor := [] }
  connectedClients_eq : s.table.connectedClients = 0
  nextOpen_eq : s.table.nextOpenClientIndex.val = 0
  accepted_eq : s.table.accepted = 0
  closed_eq : s.table.closed = []
  countedOut_eq : s.table.countedOut = []
  no_new : s.hasNewClients = false
  no_request : s.emptyRequest = false ∧ s.hasClientKillRequest = false
  phase_eq : s.phase = .top
  kills_eq : s.kills = []

end ChirpGateway
