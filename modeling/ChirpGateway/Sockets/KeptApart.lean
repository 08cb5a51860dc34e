import ChirpGateway.Lib.Tables
import ChirpGateway.Sockets.ThreadLoop

/-!
# Connections kept apart

What the thread does with a connection is meant for it, as long as no pass of the loop
meets a connection that the scan has not seen, and no kill request is left on a slot. The
flags and the miner's data belong to the slot, and only the scan makes them belong to the
connection.
-/

namespace ChirpGateway

open Transition

/-- Kills, queued bytes and counts belong to the connections they are for. -/
structure SocketThread.KeptApart {maxClients : Nat} (s : SocketThread maxClients) : Prop where
  kills : ∀ kill ∈ s.kills, kill.1 ∈ kill.2
  queues : ∀ slot, (s.table.slots slot).fd ≠ 0 → ∀ byte ∈ (s.table.slots slot).box.stream,
    byte.2 = (s.table.slots slot).occupant
  closed_once : none ∉ s.table.closed ∧ s.table.closed.Nodup ∧
    s.table.countedOut = s.table.closed
  closed_iff : ∀ conn < s.table.accepted, some conn ∈ s.table.closed ↔
    ∀ slot, (s.table.slots slot).fd ≠ 0 → (s.table.slots slot).occupant ≠ some conn
  counted : s.table.connectedClients =
    (Finset.univ.filter fun slot => (s.table.slots slot).fd ≠ 0).card

/-- The slot that a pass may close next. -/
def ThreadPhase.acting {maxClients : Nat} : ThreadPhase maxClients → Option (Fin maxClients)
  | .emptying (slot :: _) => some slot
  | .killing (slot :: _) => some slot
  | .rearming slot _ => some slot
  | _ => none

namespace SocketThread

variable {maxClients : Nat} (s : SocketThread maxClients)

/-! ## The condition -/

/-- The scan has seen whoever is in the slot. -/
def Seen (slot : Fin maxClients) : Prop := (s.table.slots slot).newConnection = false

/-- A request is for the connection in the slot, unless there is none. -/
def RequestApt (slot : Fin maxClients) (target : Option Nat) : Prop :=
  (s.table.slots slot).occupant = none ∨ (s.table.slots slot).occupant = target

/-- A descriptor is not 0, no kill request is left on the slot it goes to, a request is for
    the connection in its slot, and the thread acts on no connection that it has not seen. -/
def ActsOnSeen : SocketEvent maxClients → Prop
  | .assign fd => fd ≠ 0 ∧
    ∀ slot, s.table.openIndex = some slot → (s.table.slots slot).killRequest = false
  | .killClient slot target => s.RequestApt slot target
  | .killClient2 slot target _ _ => s.RequestApt slot target
  | .emptySlot => ∀ slot ∈ s.phase.acting, s.Seen slot
  | .killSlot => ∀ slot ∈ s.phase.acting, (s.table.slots slot).killRequest = true →
    s.Seen slot
  | .notify slot _ => s.Seen slot
  | .kick slot => s.Seen slot
  | .rearm _ => ∀ slot ∈ s.phase.acting, s.Seen slot
  | _ => True

instance (slot : Fin maxClients) : Decidable (s.Seen slot) :=
  inferInstanceAs (Decidable (_ = _))

instance (slot : Fin maxClients) (target : Option Nat) : Decidable (s.RequestApt slot target) :=
  inferInstanceAs (Decidable (_ ∨ _))

instance : (event : SocketEvent maxClients) → Decidable (s.ActsOnSeen event)
  | .assign _ => inferInstanceAs (Decidable (_ ∧ ∀ _ : Fin maxClients, _ → _))
  | .killClient slot target => inferInstanceAs (Decidable (s.RequestApt slot target))
  | .killClient2 slot target _ _ => inferInstanceAs (Decidable (s.RequestApt slot target))
  | .emptySlot => inferInstanceAs (Decidable (∀ slot ∈ s.phase.acting, s.Seen slot))
  | .killSlot => inferInstanceAs (Decidable (∀ slot ∈ s.phase.acting, _ → s.Seen slot))
  | .notify slot _ => inferInstanceAs (Decidable (s.Seen slot))
  | .kick slot => inferInstanceAs (Decidable (s.Seen slot))
  | .rearm _ => inferInstanceAs (Decidable (∀ slot ∈ s.phase.acting, s.Seen slot))
  | .raiseKill | .emptyThread | .lock | .scanSlot _ _ _ | .takeRequests | .callLoop _ | .loopDone
  | .sendSlot _ | .poll _ | .receive _ => inferInstanceAs (Decidable True)

/-! ## What a run keeps -/

/-- The clients of the events that are still to be handled are polled. -/
def EventsPolled : ThreadPhase maxClients → SlotTable maxClients → Prop
  | .serving events, t => events.Nodup ∧ ∀ slot ∈ events, (t.slots slot).polled = true
  | .rearming slot events, t => (slot :: events).Nodup ∧
    ∀ other ∈ events, (t.slots other).polled = true
  | _, _ => True

structure Kept : Prop where
  table : s.table.Kept
  kills : ∀ kill ∈ s.kills, kill.1 ∈ kill.2
  events : EventsPolled s.phase s.table

variable {s}

/-- What is kept of the connections keeps the thread apart. -/
theorem Kept.keptApart (h : s.Kept) : s.KeptApart := by
  have hsound := h.table.sound
  have hoccupied : ∀ slot, (s.table.slots slot).fd ≠ 0 ↔
      ((s.table.slots slot).occupant).isSome = true := by
    intro slot
    rw [Option.isSome_iff_ne_none]
    exact not_congr (hsound slot).occupied
  constructor
  · exact h.kills
  · exact fun slot hfd => (hsound slot).queued hfd
  · refine ⟨h.table.no_stray, ?_, h.table.paired⟩
    have hreduce : s.table.closed = s.table.closed.reduceOption.map some := by
      have hnone := h.table.no_stray
      generalize s.table.closed = closed at hnone
      induction closed with
      | nil => rfl
      | cons entry closed ih =>
        rw [List.mem_cons, not_or] at hnone
        obtain ⟨conn, rfl⟩ := Option.ne_none_iff_exists'.mp (Ne.symm hnone.1)
        rw [List.reduceOption_cons_of_some, List.map_cons, ← ih hnone.2]
    rw [hreduce]
    exact h.table.accounted.left_nodup.map (Option.some_injective _)
  · intro conn hconn
    refine List.reduceOption_mem_iff.symm.trans
      ((h.table.accounted.mem_left_iff conn).trans ?_)
    constructor
    · intro haway slot _
      exact haway.2 slot
    · intro haway
      refine ⟨by simpa [SlotTable.occupancy] using hconn, fun slot hseat => ?_⟩
      refine haway slot ?_ hseat
      rw [hoccupied]
      exact Option.isSome_of_eq_some hseat
  · rw [h.table.counted]
    unfold Occupancy.taken
    congr 2
    ext slot
    rw [Finset.mem_filter_univ, Finset.mem_filter_univ]
    exact (hoccupied slot).symm

end SocketThread

/-! ## One slot at a time -/

namespace SlotTable

variable {maxClients : Nat} {t : SlotTable maxClients} {slot : Fin maxClients}

theorem Kept.scanSlot (h : t.Kept) (added : Bool) (uniqueId loopTsms now : UInt64) :
    (t.scanSlot slot added uniqueId loopTsms now).Kept := by
  unfold SlotTable.scanSlot
  dsimp only
  split
  · next hnew =>
    have hsound := (h.sound slot).welcome hnew uniqueId loopTsms now
    split
    · exact h.setSlot hsound rfl
    · exact h.closeChanged ((h.sound slot).fresh hnew).1 rfl rfl
  · exact h

/-- Whatever waits for a client was queued after the scan. -/
theorem Kept.sendSlot (h : t.Kept) {result : SendResult} {t' : SlotTable maxClients}
    (hsend : t.sendSlot slot result = some t') : t'.Kept := by
  unfold SlotTable.sendSlot at hsend
  dsimp only at hsend
  split at hsend
  · next hqueued =>
    have hseen : (t.slots slot).newConnection = false := by
      rw [← Bool.not_eq_true]
      intro hnew
      apply hqueued.2
      rw [((h.sound slot).fresh hnew).2]
    cases result with
    | sent count =>
      dsimp only at hsend
      split at hsend
      · cases hsend
        exact h.setSlot ((h.sound slot).transmit hseen count) rfl
      · cases hsend
    | again =>
      cases hsend
      exact h
    | error =>
      cases hsend
      exact h.closeClient hqueued.1 hseen
  · cases hsend
    exact h

theorem Kept.receive (h : t.Kept) (hpolled : (t.slots slot).polled = true)
    (result : ReceiveResult) :
    (t.receive slot result).Kept := by
  obtain ⟨hfd, hseen⟩ := (h.sound slot).polled hpolled
  cases result with
  | again => exact h
  | closed => exact h.closeClient hfd hseen
  | lines m replies punted =>
    have hm : ({ t.slots slot with m } : ClientSlot).Sound := (h.sound slot).setMiner m
    unfold SlotTable.receive
    dsimp only
    split
    · exact h.closeChanged hfd rfl hseen
    · exact h.setSlot (hm.queue hseen replies) rfl

theorem slots_receive_of_ne {other : Fin maxClients} (hne : other ≠ slot)
    (result : ReceiveResult) :
    (t.receive slot result).slots other = t.slots other := by
  cases result with
  | again => rfl
  | closed => exact slots_closeClient_of_ne hne
  | lines m replies punted =>
    unfold SlotTable.receive
    dsimp only
    split
    · rw [slots_closeClient_of_ne hne, slots_setSlot_of_ne hne]
    · rw [slots_setSlot_of_ne hne]

/-- An assignment leaves what is polled polled. -/
theorem Kept.polled_assign (h : t.Kept) {fd : Nat} {t' : SlotTable maxClients}
    (hassign : t.assignToThread fd = some t') (hpolled : (t.slots slot).polled = true) :
    (t'.slots slot).polled = true := by
  obtain ⟨cid, hopen, rfl⟩ := assignToThread_some hassign
  have hne : slot ≠ cid := by
    rintro rfl
    exact ((h.sound slot).polled hpolled).1 (openIndex_free hopen)
  dsimp only
  rw [Function.update_of_ne hne]
  exact hpolled

end SlotTable

/-! ## Steps -/

namespace SocketThread

variable {maxClients : Nat} {s s' : SocketThread maxClients} {cfg : IdleTimeouts}

theorem EventsPolled.mono {phase : ThreadPhase maxClients} {t t' : SlotTable maxClients}
    (h : EventsPolled phase t)
    (hpolled : ∀ slot, (t.slots slot).polled = true → (t'.slots slot).polled = true) :
    EventsPolled phase t' := by
  cases phase with
  | serving events => exact ⟨h.1, fun slot hslot => hpolled slot (h.2 slot hslot)⟩
  | rearming slot events => exact ⟨h.1, fun other hother => hpolled other (h.2 other hother)⟩
  | _ => trivial

theorem eventsPolled_serve {events : List (Fin maxClients)} {t : SlotTable maxClients}
    (hnodup : events.Nodup) (hpolled : ∀ slot ∈ events, (t.slots slot).polled = true) :
    EventsPolled (.serve events) t := by
  cases events with
  | nil => trivial
  | cons slot events => exact ⟨hnodup, hpolled⟩

theorem EventsPolled.receive {slot : Fin maxClients} {events : List (Fin maxClients)}
    {t : SlotTable maxClients} (h : EventsPolled (.serving (slot :: events)) t)
    (result : ReceiveResult) : EventsPolled (.rearming slot events) (t.receive slot result) := by
  refine ⟨h.1, ?_⟩
  intro other hother
  have hne : other ≠ slot := by
    rintro rfl
    exact (List.nodup_cons.mp h.1).1 hother
  rw [SlotTable.slots_receive_of_ne hne]
  exact h.2 other (List.mem_cons_of_mem _ hother)

theorem EventsPolled.serve {slot : Fin maxClients} {events : List (Fin maxClients)}
    {t : SlotTable maxClients} (h : EventsPolled (.rearming slot events) t) :
    EventsPolled (.serve events) t :=
  eventsPolled_serve (List.nodup_cons.mp h.1).2 h.2

theorem EventsPolled.closeClient {slot : Fin maxClients} {events : List (Fin maxClients)}
    {t : SlotTable maxClients} (h : EventsPolled (.rearming slot events) t) :
    EventsPolled (.serve events) (t.closeClient slot) := by
  apply eventsPolled_serve (List.nodup_cons.mp h.1).2
  intro other hother
  have hne : other ≠ slot := by
    rintro rfl
    exact (List.nodup_cons.mp h.1).1 hother
  rw [SlotTable.slots_closeClient_of_ne hne]
  exact h.2 other hother

/-- A request for the connection in the slot belongs to it. -/
theorem Kept.requestKill (h : s.Kept) {slot : Fin maxClients} {target : Option Nat}
    (hapt : s.RequestApt slot target) : (s.requestKill slot target).Kept := by
  refine ⟨h.table.setSlot ((h.table.sound slot).requestKill hapt) rfl, h.kills, ?_⟩
  apply h.events.mono
  intro other hpolled
  show ((s.table.setSlot slot _).slots other).polled = true
  by_cases heq : other = slot
  · rw [heq, SlotTable.slots_setSlot_self, ← heq]
    exact hpolled
  · rw [SlotTable.slots_setSlot_of_ne heq]
    exact hpolled

/-- The kill pass closes whom the requests were made for. -/
theorem kept_killSlot (htable : s.table.Kept) (hkills : ∀ kill ∈ s.kills, kill.1 ∈ kill.2)
    {slot : Fin maxClients} (hseen : (s.table.slots slot).killRequest = true → s.Seen slot) :
    (s.killSlot slot).table.Kept ∧ ∀ kill ∈ (s.killSlot slot).kills, kill.1 ∈ kill.2 := by
  unfold SocketThread.killSlot
  dsimp only
  split
  · next hkill =>
    refine ⟨htable.closeChanged hkill.1 rfl (hseen hkill.2), ?_⟩
    intro kill hmem
    rcases List.mem_cons.mp hmem with rfl | hold
    · exact (htable.sound slot).requested hkill.1 hkill.2
    · exact hkills kill hold
  · exact ⟨htable, hkills⟩

/-- What the listener and the API do leaves the connections apart. -/
theorem kept_disturb (h : s.Kept) {event : SocketEvent maxClients} (hcond : s.ActsOnSeen event)
    (hstep : s.disturb event = some s') : s'.Kept := by
  cases event with
  | assign fd =>
    simp only [disturb] at hstep
    split at hstep
    · cases hstep
    · rw [Option.map_eq_some_iff] at hstep
      obtain ⟨table, hassign, rfl⟩ := hstep
      refine ⟨h.table.assign hassign hcond.1 hcond.2, h.kills, ?_⟩
      exact h.events.mono fun slot => h.table.polled_assign hassign
  | killClient slot target =>
    cases hstep
    exact h.requestKill hcond
  | killClient2 slot target connectTsms uniqueId =>
    simp only [disturb] at hstep
    split at hstep
    · cases hstep
      exact h.requestKill hcond
    · cases hstep
  | raiseKill =>
    cases hstep
    exact ⟨h.table, h.kills, h.events⟩
  | emptyThread =>
    cases hstep
    exact ⟨h.table, h.kills, h.events⟩
  | _ => cases hstep

theorem kept_advance (h : s.Kept) {event : SocketEvent maxClients} (hcond : s.ActsOnSeen event)
    (hstep : s.advance cfg s.phase event = some s') : s'.Kept := by
  obtain ⟨htable, hkills, hevents⟩ := h
  unfold advance at hstep
  split at hstep
  -- the lock is taken
  · split at hstep
    · cases hstep
      exact ⟨htable, hkills, trivial⟩
    · split at hstep
      · cases hstep
        exact ⟨htable, hkills, trivial⟩
      · cases hstep
        exact ⟨htable, hkills, trivial⟩
  -- the scan for new connections
  · next slot todo added uniqueId now hphase =>
    cases hstep
    exact ⟨htable.scanSlot added uniqueId s.loopTsms now, hkills, trivial⟩
  · cases hstep
    exact ⟨htable, hkills, trivial⟩
  -- requests, with their passes
  · split at hstep
    · cases hstep
      exact ⟨htable, hkills, trivial⟩
    · split at hstep
      · cases hstep
        exact ⟨htable, hkills, trivial⟩
      · cases hstep
        exact ⟨htable, hkills, trivial⟩
  · next slot todo hphase =>
    cases hstep
    refine ⟨?_, hkills, trivial⟩
    dsimp only
    split
    · next hfd => exact htable.closeClient hfd (hcond slot (by rw [hphase]; rfl))
    · exact htable
  · cases hstep
    exact ⟨htable, hkills, trivial⟩
  · next slot todo hphase =>
    cases hstep
    obtain ⟨hkilled, hall⟩ := kept_killSlot htable hkills (hcond slot (by rw [hphase]; rfl))
    exact ⟨hkilled, hall, trivial⟩
  · cases hstep
    exact ⟨htable, hkills, trivial⟩
  -- the loop function
  · cases hstep
    exact ⟨htable, hkills, trivial⟩
  · next slot pieces hphase =>
    dsimp only at hstep
    split at hstep
    · cases hstep
      refine ⟨htable.setSlot ((htable.sound slot).queue hcond pieces) rfl, hkills, ?_⟩
      rw [hphase]
      trivial
    · cases hstep
  · next slot hphase =>
    dsimp only at hstep
    split at hstep
    · next hidle =>
      cases hstep
      have hown := (htable.sound slot).own hidle.2.1 hcond
      have hrequest := (htable.sound slot).requestKill (Or.inr hown.symm)
      refine ⟨htable.setSlot hrequest rfl, hkills, ?_⟩
      show EventsPolled s.phase _
      rw [hphase]
      trivial
    · cases hstep
  · dsimp only at hstep
    split at hstep
    · cases hstep
      exact ⟨htable, hkills, trivial⟩
    · cases hstep
      exact ⟨htable, hkills, trivial⟩
  -- the send pass
  · next slot todo result hphase =>
    rw [Option.map_eq_some_iff] at hstep
    obtain ⟨table, hsend, rfl⟩ := hstep
    exact ⟨htable.sendSlot hsend, hkills, trivial⟩
  · cases hstep
    exact ⟨htable, hkills, trivial⟩
  -- the events
  · next events hphase =>
    split at hstep
    · next hpolled =>
      cases hstep
      exact ⟨htable, hkills, eventsPolled_serve hpolled.1 hpolled.2⟩
    · cases hstep
  · next slot events hphase =>
    cases hstep
    rw [hphase] at hevents
    refine ⟨htable, hkills, eventsPolled_serve (List.nodup_cons.mp hevents.1).2 ?_⟩
    exact fun other hother => hevents.2 other (List.mem_cons_of_mem _ hother)
  · next slot events result _ hphase =>
    cases hstep
    rw [hphase] at hevents
    have hpolled := hevents.2 slot List.mem_cons_self
    exact ⟨htable.receive hpolled result, hkills, hevents.receive result⟩
  · next slot events modified hphase =>
    rw [hphase] at hevents
    dsimp only at hstep
    split at hstep
    · cases hstep
      exact ⟨htable, hkills, hevents.serve⟩
    · next hfd =>
      split at hstep
      · split at hstep
        · cases hstep
          exact ⟨htable, hkills, hevents.serve⟩
        · cases hstep
      · cases hstep
        have hseen := hcond slot (by rw [hphase]; rfl)
        exact ⟨htable.closeClient hfd hseen, hkills, hevents.closeClient⟩
  · cases hstep

/-- One step keeps the connections apart. -/
theorem kept_step (h : s.Kept) {event : SocketEvent maxClients} (hcond : s.ActsOnSeen event)
    (hstep : s.step cfg event = some s') : s'.Kept := by
  unfold step at hstep
  split at hstep
  · exact kept_disturb h hcond hstep
  · exact kept_disturb h hcond hstep
  · exact kept_disturb h hcond hstep
  · exact kept_disturb h hcond hstep
  · exact kept_disturb h hcond hstep
  · exact kept_advance h hcond hstep

theorem kept_of_isStarted (h : s.IsStarted) : s.Kept := by
  have hseats : ∀ slot, (s.table.slots slot).occupant = none := by
    intro slot
    rw [h.slots_eq slot]
  refine ⟨⟨?_, ?_, ?_, ?_, ?_⟩, ?_, ?_⟩
  · intro slot
    rw [h.slots_eq slot]
    constructor <;> simp [Outbox.stream]
  · constructor
    · intro slot other conn hslot
      cases (hseats slot).symm.trans hslot
    · intro slot conn hslot
      cases (hseats slot).symm.trans hslot
    · show s.table.closed.reduceOption.Nodup
      rw [h.closed_eq]
      exact List.nodup_nil
    · intro conn
      simp [SlotTable.occupancy, h.closed_eq, h.accepted_eq]
  · rw [h.connectedClients_eq]
    simp [Occupancy.taken, SlotTable.occupancy, hseats]
  · rw [h.closed_eq]
    simp
  · rw [h.closed_eq, h.countedOut_eq]
  · rw [h.kills_eq]
    simp
  · rw [h.phase_eq]
    trivial

/-- As long as no pass meets a connection that the scan has not seen, and no kill request
    is left on a slot, connections are kept apart. -/
theorem keptApart_of_actsOnSeen (hrun : (socketSystem cfg maxClients).ReachedBy
    (fun s event => s.ActsOnSeen event) IsStarted s) : s.KeptApart := by
  have hkept := hrun.invariant (fun s hstart => kept_of_isStarted hstart)
    (fun s event s' h hcond hstep => kept_step h hcond hstep)
  exact hkept.keptApart

end SocketThread

/-! ## Connections that are not kept apart -/

/-- A thread that serves two clients at most. -/
def startedThread : SocketThread 2 where
  table := {
    slots := fun _ => {
      newConnection := false, fd := 0, box := ⟨[], []⟩, killRequest := false, m := .zero
      polled := false, occupant := none, minerOf := none, requestedFor := [] }
    connectedClients := 0
    nextOpenClientIndex := 0
    accepted := 0
    closed := []
    countedOut := [] }
  hasNewClients := false
  emptyRequest := false
  hasClientKillRequest := false
  phase := .top
  loopTsms := 0
  nextKickCheckTsms := 10000
  kills := []

theorem startedThread_isStarted : startedThread.IsStarted := by
  constructor <;> first | rfl | exact fun _ => rfl | exact ⟨rfl, rfl⟩

def noTimeouts : IdleTimeouts := ⟨0, 0, 0⟩

/-- The miner's data of a client that has subscribed. -/
def subscribedMiner : SlotMiner := ⟨true, 0, 1, 0, 0⟩

/-- A turn of the loop up to the events, without requests or new connections. -/
def quietTurn : List (SocketEvent 2) :=
  [.lock, .takeRequests, .callLoop 1, .loopDone, .sendSlot .again, .sendSlot .again,
    .sendSlot .again]

/-- The same with a scan. -/
def scanTurn : List (SocketEvent 2) :=
  [.lock, .scanSlot true 0 1, .scanSlot true 0 1, .scanSlot true 0 1] ++ quietTurn.tail

/-- Connection 0 subscribes, is sent work, and is killed on request. -/
def aptKill : List (SocketEvent 2) :=
  [.assign 5] ++ scanTurn ++ [.poll [0], .receive (.lines subscribedMiner [] false), .rearm true,
    .lock, .takeRequests, .callLoop 1, .notify 0 [[0x7b]], .loopDone, .sendSlot (.sent 1),
    .killClient2 0 (some 0) 1 0, .raiseKill, .sendSlot .again, .sendSlot .again, .poll [],
    .assign 6, .lock, .scanSlot true 1 1, .scanSlot true 1 1, .scanSlot true 1 1, .takeRequests,
    .killSlot]

theorem aptKill_keptApart :
    ∃ s, (socketSystem noTimeouts 2).ReachedBy (fun s event => s.ActsOnSeen event)
      SocketThread.IsStarted s ∧ s.kills = [(some 0, [some 0])] ∧ s.KeptApart := by
  obtain ⟨s, hrun, htest⟩ := System.exists_reachedBy_of_replay (socketSystem noTimeouts 2)
    startedThread_isStarted (fun s event => decide (s.ActsOnSeen event)) aptKill
    (fun s => decide (s.kills = [(some 0, [some 0])])) (fun _ _ => of_decide_eq_true)
    (by decide +kernel)
  exact ⟨s, hrun, of_decide_eq_true htest, SocketThread.keptApart_of_actsOnSeen hrun⟩

/-- Connection 0 goes before the kill request for it is looked at. The next one in its slot
    is killed. -/
def crossedKill : List (SocketEvent 2) :=
  [.assign 5] ++ scanTurn ++ [.killClient 0 (some 0), .raiseKill, .poll [0], .receive .closed,
    .rearm false, .assign 6, .lock, .scanSlot true 1 1, .scanSlot true 1 1, .scanSlot true 1 1,
    .takeRequests, .killSlot]

/-- Connection 0 has subscribed and gone. Connection 2 comes to its slot behind the scan, and
    is sent work for the other one's miner. -/
def crossedWork : List (SocketEvent 2) :=
  [.assign 5, .assign 6] ++ scanTurn ++ [.poll [0], .receive (.lines subscribedMiner [] false),
    .rearm true] ++ quietTurn ++ [.poll [0], .receive .closed, .rearm false, .lock, .assign 7,
    .takeRequests, .callLoop 1, .notify 0 [[0x7b]], .loopDone, .sendSlot (.sent 1)]

/-- Connection 1 comes behind the scan, and the thread is emptied. The next scan counts it
    out once more, as its slot is still marked as new. -/
def countedTwice : List (SocketEvent 2) :=
  [.assign 5] ++ scanTurn ++ [.emptyThread, .poll [], .lock, .assign 6, .takeRequests, .emptySlot,
    .emptySlot, .emptySlot, .callLoop 1, .loopDone, .sendSlot .again, .sendSlot .again,
    .sendSlot .again, .poll [], .assign 7, .lock, .scanSlot true 2 1, .scanSlot false 3 1]

/-- A run of the thread, step by step, to a state that passes the test. -/
theorem exists_reachable_of_replay (events : List (SocketEvent 2)) (test : SocketThread 2 → Bool)
    (hreplay : ((socketSystem noTimeouts 2).replay (fun _ _ => true) startedThread events).any
      test = true) :
    ∃ s, (socketSystem noTimeouts 2).Reachable SocketThread.IsStarted s ∧ test s = true :=
  System.exists_reachedBy_of_replay _ startedThread_isStarted _ events test
    (fun _ _ _ => trivial) hreplay

/-- The kill request of one connection closes another, the work of one is sent to another,
    and a connection is counted out twice. -/
theorem exists_not_keptApart :
    (∃ s, (socketSystem noTimeouts 2).Reachable SocketThread.IsStarted s ∧ ¬ s.KeptApart ∧
      ∃ kill ∈ s.kills, kill.1 ∉ kill.2) ∧
    (∃ s, (socketSystem noTimeouts 2).Reachable SocketThread.IsStarted s ∧ ¬ s.KeptApart ∧
      (s.table.slots 0).fd ≠ 0 ∧
        ∃ byte ∈ (s.table.slots 0).box.sent, byte.2 ≠ (s.table.slots 0).occupant) ∧
    ∃ s, (socketSystem noTimeouts 2).Reachable SocketThread.IsStarted s ∧ ¬ s.KeptApart ∧
      none ∈ s.table.closed ∧ s.table.connectedClients = 0 ∧ (s.table.slots 0).fd ≠ 0 := by
  refine ⟨?_, ?_, ?_⟩
  · obtain ⟨s, hrun, htest⟩ := exists_reachable_of_replay crossedKill
      (fun s => decide (∃ kill ∈ s.kills, kill.1 ∉ kill.2)) (by decide +kernel)
    rw [decide_eq_true_iff] at htest
    refine ⟨s, hrun, fun hapart => ?_, htest⟩
    obtain ⟨kill, hkill, hcrossed⟩ := htest
    exact hcrossed (hapart.kills kill hkill)
  · obtain ⟨s, hrun, htest⟩ := exists_reachable_of_replay crossedWork
      (fun s => decide ((s.table.slots 0).fd ≠ 0 ∧
        ∃ byte ∈ (s.table.slots 0).box.sent, byte.2 ≠ (s.table.slots 0).occupant))
      (by decide +kernel)
    rw [decide_eq_true_iff] at htest
    refine ⟨s, hrun, fun hapart => ?_, htest⟩
    obtain ⟨hfd, byte, hbyte, hcrossed⟩ := htest
    exact hcrossed (hapart.queues 0 hfd byte (List.mem_append_left _ hbyte))
  · obtain ⟨s, hrun, htest⟩ := exists_reachable_of_replay countedTwice
      (fun s => decide (none ∈ s.table.closed ∧ s.table.connectedClients = 0 ∧
        (s.table.slots 0).fd ≠ 0)) (by decide +kernel)
    rw [decide_eq_true_iff] at htest
    refine ⟨s, hrun, fun hapart => ?_, htest⟩
    exact hapart.closed_once.1 htest.1

end ChirpGateway
