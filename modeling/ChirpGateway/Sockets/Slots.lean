import ChirpGateway.Lib.Occupancy
import ChirpGateway.Stratum.Client
import Mathlib.Data.List.ReduceOption

/-!
# The slots of a socket thread

A thread serves its clients from a table of slots. The listener puts a connection into a
free slot under the lock of the thread, and the thread counts it out when it closes it
(`datum_sockets.c:382-551`, `datum_sockets.h:177-190`).
-/

namespace ChirpGateway

/-- The fields of `T_DATUM_MINER_DATA` that decide whether a client gets work, and for how
    long it is kept. -/
structure SlotMiner where
  subscribed : Bool
  uniqueId : UInt64
  connectTsms : UInt64
  shareCountAccepted : UInt64
  lastShareTsms : UInt64

/-- The data of a slot that nobody has used. -/
def SlotMiner.zero : SlotMiner := ⟨false, 0, 0, 0, 0⟩

/-- `T_DATUM_CLIENT_DATA`. A descriptor of 0 marks a free slot. -/
structure ClientSlot where
  newConnection : Bool
  fd : Nat
  /-- the bytes of the write buffer and those that were sent, each with the connection
      whose miner's data it was built from -/
  box : Outbox (UInt8 × Option Nat)
  killRequest : Bool
  m : SlotMiner
  /-- the descriptor is in the epoll set -/
  polled : Bool
  /-- the connection of the descriptor -/
  occupant : Option Nat
  /-- the connection that the miner's data was cleared for -/
  minerOf : Option Nat
  /-- the connections that the kill request was made for -/
  requestedFor : List (Option Nat)

/-- The part of `T_DATUM_THREAD_DATA` that the slots are counted with. The connections
    are numbered in the order of their arrival. -/
structure SlotTable (maxClients : Nat) where
  slots : Fin maxClients → ClientSlot
  connectedClients : Int
  nextOpenClientIndex : Fin maxClients
  accepted : Nat
  /-- the connections whose descriptor was closed, the last one first -/
  closed : List (Option Nat)
  countedOut : List (Option Nat)

namespace ClientSlot

variable (c : ClientSlot)

/-- `datum_socket_send_string_to_client`, for each piece of a message. -/
def queue (pieces : List (List UInt8)) : ClientSlot :=
  { c with box := c.box.appendAll clientBuffer (pieces.map fun piece =>
      piece.map fun byte => (byte, c.minerOf)) }

/-- A kill request is set. -/
def requestKill (target : Option Nat) : ClientSlot :=
  { c with killRequest := true, requestedFor := target :: c.requestedFor }

/-- `datum_stratum_v1_socket_thread_client_new`. -/
def clientNew (uniqueId loopTsms currentTimeMillis : UInt64) : ClientSlot :=
  { c with
    m := {
      subscribed := false
      uniqueId
      connectTsms := if loopTsms > 0 then loopTsms else currentTimeMillis
      shareCountAccepted := 0
      lastShareTsms := 0 }
    minerOf := c.occupant }

/-- A slot is handed to a connection, the miner's data left as it is. -/
def prepare (fd conn : Nat) : ClientSlot :=
  { c with newConnection := true, fd, box := ⟨[], []⟩, occupant := some conn }

/-- What the thread does first with a new connection. -/
def begin : ClientSlot :=
  { c with newConnection := false, box := { c.box with queued := [] } }

end ClientSlot

namespace SlotTable

variable {maxClients : Nat} (t : SlotTable maxClients)

def setSlot (slot : Fin maxClients) (c : ClientSlot) : SlotTable maxClients :=
  { t with slots := Function.update t.slots slot c }

/-- The slot for the next connection: the expected one, or the first that is free. -/
def openIndex : Option (Fin maxClients) :=
  if (t.slots t.nextOpenClientIndex).fd = 0 then some t.nextOpenClientIndex
  else (List.finRange maxClients).find? fun slot => (t.slots slot).fd = 0

/-- The slot that is expected to be free next: the first behind this one, or the last. -/
def nextOpen (cid : Fin maxClients) : Fin maxClients :=
  let rest := ((List.finRange maxClients).rotate (cid + 1)).dropLast
  (rest.find? fun slot => (t.slots slot).fd = 0).getD
    ⟨maxClients - 1, Nat.sub_one_lt_of_lt cid.isLt⟩

/-- `assign_to_thread`, once the thread is chosen. -/
def assignToThread (fd : Nat) : Option (SlotTable maxClients) :=
  if t.connectedClients ≥ maxClients then none
  else
    match t.openIndex with
    | none => none
    | some cid =>
      some { t with
        slots := Function.update t.slots cid ((t.slots cid).prepare fd t.accepted)
        connectedClients := t.connectedClients + 1
        nextOpenClientIndex := t.nextOpen cid
        accepted := t.accepted + 1 }

/-- `datum_socket_thread_client_count_decrement`. -/
def countDecrement (cidWhoLeft : Fin maxClients) : SlotTable maxClients :=
  { t with
    slots := Function.update t.slots cidWhoLeft
      { t.slots cidWhoLeft with fd := 0, occupant := none }
    connectedClients := t.connectedClients - 1
    nextOpenClientIndex :=
      if cidWhoLeft < t.nextOpenClientIndex then cidWhoLeft else t.nextOpenClientIndex
    countedOut := (t.slots cidWhoLeft).occupant :: t.countedOut }

/-- The descriptor is closed, and the client counted out. -/
def closeClient (slot : Fin maxClients) : SlotTable maxClients :=
  { t.setSlot slot { t.slots slot with polled := false } with
    closed := (t.slots slot).occupant :: t.closed }.countDecrement slot

/-! ## What is kept of a table -/

/-- Who sits in which slot. -/
def occupancy : Occupancy (Fin maxClients) Nat where
  seat slot := (t.slots slot).occupant
  entered := (List.range t.accepted).reverse
  left := t.closed.reduceOption

end SlotTable

/-- What belongs to a slot belongs to its connection. -/
structure ClientSlot.Sound (c : ClientSlot) : Prop where
  occupied : c.fd = 0 ↔ c.occupant = none
  fresh : c.newConnection = true → c.fd ≠ 0 ∧ c.box = ⟨[], []⟩
  own : c.fd ≠ 0 → c.newConnection = false → c.minerOf = c.occupant
  queued : c.fd ≠ 0 → ∀ byte ∈ c.box.stream, byte.2 = c.occupant
  requested : c.fd ≠ 0 → c.killRequest = true → c.occupant ∈ c.requestedFor
  polled : c.polled = true → c.fd ≠ 0 ∧ c.newConnection = false

namespace ClientSlot

variable {c : ClientSlot}

theorem Sound.occupant_ne_none (h : c.Sound) (hfd : c.fd ≠ 0) :
    ∃ conn, c.occupant = some conn :=
  Option.ne_none_iff_exists'.mp fun hnone => hfd (h.occupied.mpr hnone)

/-- What is built from the miner's data of the connection belongs to it. -/
theorem Sound.queue (h : c.Sound) (hfresh : c.newConnection = false) (pieces : List (List UInt8)) :
    (c.queue pieces).Sound := by
  constructor
  · exact h.occupied
  · intro hnew
    exact absurd (hfresh.symm.trans hnew) Bool.false_ne_true
  · exact h.own
  · intro hfd byte hbyte
    rcases Outbox.mem_stream_appendAll hbyte with hold | ⟨piece, hpiece, hmem⟩
    · exact h.queued hfd byte hold
    · obtain ⟨plain, -, rfl⟩ := List.mem_map.mp hpiece
      obtain ⟨value, -, rfl⟩ := List.mem_map.mp hmem
      exact h.own hfd hfresh
  · exact h.requested
  · exact h.polled

theorem Sound.requestKill (h : c.Sound) {target : Option Nat}
    (hapt : c.occupant = none ∨ c.occupant = target) : (c.requestKill target).Sound := by
  constructor
  · exact h.occupied
  · exact h.fresh
  · exact h.own
  · exact h.queued
  · intro hfd _
    rcases hapt with hnone | hsame
    · exact absurd (h.occupied.mpr hnone) hfd
    · show c.occupant ∈ target :: c.requestedFor
      rw [hsame]
      exact List.mem_cons_self
  · exact h.polled

/-- A slot without a kill request can be handed to another connection. -/
theorem Sound.prepare (h : c.Sound) {fd : Nat} (hfree : c.fd = 0) (hfd : fd ≠ 0)
    (hkill : c.killRequest = false) (conn : Nat) : (c.prepare fd conn).Sound := by
  constructor
  · exact ⟨fun hzero => absurd hzero hfd, fun hnone => by cases hnone⟩
  · exact fun _ => ⟨hfd, rfl⟩
  · intro _ hcontra
    cases hcontra
  · intro _ byte hbyte
    cases hbyte
  · intro _ hrequest
    exact absurd (hkill.symm.trans hrequest) Bool.false_ne_true
  · intro hpolled
    exact absurd hfree (h.polled hpolled).1

/-- The miner's data is cleared for the new connection, which is then polled. -/
theorem Sound.welcome (h : c.Sound) (hnew : c.newConnection = true)
    (uniqueId loopTsms currentTimeMillis : UInt64) :
    ({ c.begin with polled := true }.clientNew uniqueId loopTsms currentTimeMillis).Sound := by
  obtain ⟨hfd, hbox⟩ := h.fresh hnew
  constructor
  · exact h.occupied
  · intro hcontra
    cases hcontra
  · exact fun _ _ => rfl
  · intro _ byte hbyte
    unfold ClientSlot.clientNew begin Outbox.stream at hbyte
    rw [hbox] at hbyte
    cases hbyte
  · exact h.requested
  · exact fun _ => ⟨hfd, rfl⟩

theorem Sound.setMiner (h : c.Sound) (m : SlotMiner) : ({ c with m } : ClientSlot).Sound :=
  ⟨h.occupied, h.fresh, h.own, h.queued, h.requested, h.polled⟩

/-- The peer takes some bytes. -/
theorem Sound.transmit (h : c.Sound) (hseen : c.newConnection = false) (count : Nat) :
    ({ c with box := c.box.transmit count } : ClientSlot).Sound := by
  constructor
  · exact h.occupied
  · intro hnew
    exact absurd (hseen.symm.trans hnew) Bool.false_ne_true
  · exact h.own
  · intro hfd byte hbyte
    dsimp only at hbyte
    rw [Outbox.stream_transmit] at hbyte
    exact h.queued hfd byte hbyte
  · exact h.requested
  · exact h.polled

/-- A slot that is left is free. -/
theorem sound_vacate (hnew : c.newConnection = false) :
    ({ c with polled := false, fd := 0, occupant := none } : ClientSlot).Sound := by
  constructor
  · exact ⟨fun _ => rfl, fun _ => rfl⟩
  · intro hcontra
    exact absurd (hnew.symm.trans hcontra) Bool.false_ne_true
  · exact fun hfd => absurd rfl hfd
  · exact fun hfd => absurd rfl hfd
  · exact fun hfd => absurd rfl hfd
  · intro hcontra
    cases hcontra

end ClientSlot

/-- The connections are accounted for. -/
structure SlotTable.Kept {maxClients : Nat} (t : SlotTable maxClients) : Prop where
  sound : ∀ slot, (t.slots slot).Sound
  accounted : t.occupancy.Accounted
  counted : t.connectedClients = t.occupancy.taken
  no_stray : none ∉ t.closed
  paired : t.countedOut = t.closed

namespace SlotTable

variable {maxClients : Nat} {t : SlotTable maxClients}

@[simp]
theorem slots_setSlot_self (slot : Fin maxClients) (c : ClientSlot) :
    (t.setSlot slot c).slots slot = c :=
  Function.update_self _ _ _

theorem slots_setSlot_of_ne {slot other : Fin maxClients} (h : other ≠ slot) (c : ClientSlot) :
    (t.setSlot slot c).slots other = t.slots other :=
  Function.update_of_ne h _ _

theorem setSlot_self (slot : Fin maxClients) : t.setSlot slot (t.slots slot) = t := by
  unfold SlotTable.setSlot
  rw [Function.update_eq_self]

theorem occupancy_setSlot {slot : Fin maxClients} {c : ClientSlot}
    (hoccupant : c.occupant = (t.slots slot).occupant) :
    (t.setSlot slot c).occupancy = t.occupancy := by
  have hseat : (fun other => ((t.setSlot slot c).slots other).occupant) =
      fun other => (t.slots other).occupant := by
    funext other
    by_cases heq : other = slot
    · rw [heq, slots_setSlot_self, hoccupant]
    · rw [slots_setSlot_of_ne heq]
  unfold occupancy
  rw [hseat]
  rfl

/-- A slot changes, but not its connection. -/
theorem Kept.setSlot (h : t.Kept) {slot : Fin maxClients} {c : ClientSlot} (hsound : c.Sound)
    (hoccupant : c.occupant = (t.slots slot).occupant) : (t.setSlot slot c).Kept := by
  have hsame := occupancy_setSlot hoccupant
  constructor
  · intro other
    by_cases heq : other = slot
    · rw [heq, slots_setSlot_self]
      exact hsound
    · rw [slots_setSlot_of_ne heq]
      exact h.sound other
  · rw [hsame]
    exact h.accounted
  · rw [hsame]
    exact h.counted
  · exact h.no_stray
  · exact h.paired

theorem openIndex_free {cid : Fin maxClients} (h : t.openIndex = some cid) :
    (t.slots cid).fd = 0 := by
  unfold openIndex at h
  split at h
  · next hfree =>
    cases h
    exact hfree
  · simpa using List.find?_some h

/-- An assignment takes one free slot, as `openIndex` says which. -/
theorem assignToThread_some {fd : Nat} {t' : SlotTable maxClients}
    (h : t.assignToThread fd = some t') :
    ∃ cid, t.openIndex = some cid ∧ t' = { t with
      slots := Function.update t.slots cid ((t.slots cid).prepare fd t.accepted)
      connectedClients := t.connectedClients + 1
      nextOpenClientIndex := t.nextOpen cid
      accepted := t.accepted + 1 } := by
  unfold assignToThread at h
  split at h
  · cases h
  · split at h
    · cases h
    · next cid hopen =>
      cases h
      exact ⟨cid, hopen, rfl⟩

theorem Kept.assign (h : t.Kept) {fd : Nat} {t' : SlotTable maxClients}
    (hassign : t.assignToThread fd = some t') (hfd : fd ≠ 0)
    (hkill : ∀ cid, t.openIndex = some cid → (t.slots cid).killRequest = false) : t'.Kept := by
  obtain ⟨cid, hopen, rfl⟩ := assignToThread_some hassign
  have hfree := openIndex_free hopen
  have hseat : t.occupancy.seat cid = none := (h.sound cid).occupied.mp hfree
  have hnew : t.accepted ∉ t.occupancy.entered := by
    simp [occupancy]
  have hoccupancy : occupancy { t with
      slots := Function.update t.slots cid ((t.slots cid).prepare fd t.accepted)
      connectedClients := t.connectedClients + 1
      nextOpenClientIndex := t.nextOpen cid
      accepted := t.accepted + 1 } = t.occupancy.enter cid t.accepted := by
    have hseats : (fun other => (Function.update t.slots cid
        ((t.slots cid).prepare fd t.accepted) other).occupant) =
          Function.update (fun other => (t.slots other).occupant) cid (some t.accepted) := by
      funext other
      by_cases heq : other = cid
      · rw [heq, Function.update_self, Function.update_self]
        rfl
      · rw [Function.update_of_ne heq, Function.update_of_ne heq]
    unfold occupancy Occupancy.enter
    dsimp only
    rw [hseats, List.range_succ, List.reverse_append]
    rfl
  constructor
  · intro other
    dsimp only
    by_cases heq : other = cid
    · rw [heq, Function.update_self]
      exact (h.sound cid).prepare hfree hfd (hkill cid hopen) t.accepted
    · rw [Function.update_of_ne heq]
      exact h.sound other
  · rw [hoccupancy]
    exact h.accounted.enter hseat hnew
  · rw [hoccupancy, Occupancy.taken_enter _ hseat]
    dsimp only
    rw [h.counted]
    norm_cast
  · exact h.no_stray
  · exact h.paired

theorem slots_closeClient (slot : Fin maxClients) : (t.closeClient slot).slots =
    Function.update t.slots slot
      { t.slots slot with polled := false, fd := 0, occupant := none } := by
  unfold SlotTable.closeClient countDecrement SlotTable.setSlot
  dsimp only
  rw [Function.update_idem, Function.update_self]

theorem slots_closeClient_of_ne {slot other : Fin maxClients} (h : other ≠ slot) :
    (t.closeClient slot).slots other = t.slots other := by
  rw [slots_closeClient, Function.update_of_ne h]

theorem occupancy_closeClient {slot : Fin maxClients} {conn : Nat}
    (hconn : (t.slots slot).occupant = some conn) :
    (t.closeClient slot).occupancy = t.occupancy.leave slot := by
  have hseats : (fun other => ((t.closeClient slot).slots other).occupant) =
      Function.update (fun other => (t.slots other).occupant) slot none := by
    rw [slots_closeClient]
    funext other
    by_cases heq : other = slot
    · rw [heq, Function.update_self, Function.update_self]
    · rw [Function.update_of_ne heq, Function.update_of_ne heq]
  have hclosed : (t.closeClient slot).closed = some conn :: t.closed := by
    rw [← hconn]
    rfl
  unfold occupancy Occupancy.leave
  dsimp only
  rw [hseats, hclosed, hconn, List.reduceOption_cons_of_some]
  rfl

/-- A slot may change before it is closed, but not its connection. -/
theorem Kept.closeChanged (h : t.Kept) {slot : Fin maxClients} {c : ClientSlot}
    (hfd : (t.slots slot).fd ≠ 0) (hoccupant : c.occupant = (t.slots slot).occupant)
    (hnew : c.newConnection = false) : ((t.setSlot slot c).closeClient slot).Kept := by
  obtain ⟨conn, hconn⟩ := (h.sound slot).occupant_ne_none hfd
  have hchanged : ((t.setSlot slot c).slots slot).occupant = some conn := by
    rw [slots_setSlot_self, hoccupant, hconn]
  have hoccupancy : ((t.setSlot slot c).closeClient slot).occupancy = t.occupancy.leave slot := by
    rw [occupancy_closeClient hchanged, occupancy_setSlot hoccupant]
  have hclosed : ((t.setSlot slot c).closeClient slot).closed = some conn :: t.closed := by
    rw [← hchanged]
    rfl
  have hcounted : ((t.setSlot slot c).closeClient slot).countedOut = some conn :: t.countedOut := by
    rw [← hconn, ← hoccupant]
    unfold SlotTable.closeClient countDecrement SlotTable.setSlot
    dsimp only
    rw [Function.update_self, Function.update_self]
  constructor
  · intro other
    by_cases heq : other = slot
    · rw [heq, slots_closeClient, Function.update_self, slots_setSlot_self]
      exact ClientSlot.sound_vacate hnew
    · rw [slots_closeClient_of_ne heq, slots_setSlot_of_ne heq]
      exact h.sound other
  · rw [hoccupancy]
    exact h.accounted.leave hconn
  · have htaken := Occupancy.taken_leave (o := t.occupancy) hconn
    have hcount : ((t.setSlot slot c).closeClient slot).connectedClients =
      t.connectedClients - 1 := rfl
    rw [hoccupancy, hcount, h.counted, ← htaken]
    omega
  · rw [hclosed]
    simp [h.no_stray]
  · rw [hclosed, hcounted, h.paired]

theorem Kept.closeClient (h : t.Kept) {slot : Fin maxClients} (hfd : (t.slots slot).fd ≠ 0)
    (hnew : (t.slots slot).newConnection = false) : (t.closeClient slot).Kept := by
  have hclosed := h.closeChanged hfd rfl hnew
  rw [setSlot_self] at hclosed
  exact hclosed

end SlotTable

end ChirpGateway
