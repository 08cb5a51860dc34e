import ChirpGateway.Lib.Tables
import ChirpGateway.Stratum.WorkLoop
import Mathlib.Data.List.Nodup

/-!
# Handing out a normal job

A job without a new block goes to the clients of a thread one after another over the time
until the next one (`datum_stratum.c:566-643`). Nobody gets it twice, and everybody who was
counted gets it, unless a client that comes in later is taken for one of them.
-/

namespace ChirpGateway

/-- A turn of the loop, with the clients as it finds them. -/
structure PaceTurn where
  now : UInt64
  clients : Subscribers
  readyForFull : Bool

namespace WorkThread

variable {cfg : PaceConfig} {clients : Subscribers} {s : WorkThread}

/-! ## One scan -/

/-- A scan goes through a part of the clients and notifies all it meets that it may. It
    ends early only behind one that it notified. -/
theorem paceScan_spec (eligible : Nat → Bool) {budget : Nat} (hbudget : 0 < budget)
    (cids : List Nat) :
    ∃ front back, cids = front ++ back ∧
      (paceScan eligible budget cids).1 = front.filter eligible ∧
      ((paceScan eligible budget cids).2 = true → back = []) ∧
      ((paceScan eligible budget cids).2 = false →
        ∃ last, front.getLast? = some last ∧ eligible last = true) := by
  induction cids generalizing budget with
  | nil => exact ⟨[], [], rfl, rfl, fun _ => rfl, fun h => by simp [paceScan] at h⟩
  | cons cid cids ih =>
    by_cases hcid : eligible cid = true
    · by_cases hone : budget = 1
      · refine ⟨[cid], cids, rfl, ?_, fun h => ?_, fun _ => ⟨cid, rfl, hcid⟩⟩
        · simp [paceScan, hcid, hone]
        · simp [paceScan, hcid, hone] at h
      · obtain ⟨front, back, hsplit, hnotified, hended, hearly⟩ :=
          ih (show 0 < budget - 1 by omega)
        refine ⟨cid :: front, back, by rw [hsplit, List.cons_append], ?_, ?_, ?_⟩
        · simp [paceScan, hcid, hone, hnotified]
        · simpa [paceScan, hcid, hone] using hended
        · intro h
          obtain ⟨last, hlast, hel⟩ := hearly (by simpa [paceScan, hcid, hone] using h)
          refine ⟨last, ?_, hel⟩
          rw [List.getLast?_cons, hlast]
          rfl
    · obtain ⟨front, back, hsplit, hnotified, hended, hearly⟩ := ih hbudget
      refine ⟨cid :: front, back, by rw [hsplit, List.cons_append], ?_, ?_, ?_⟩
      · simp [paceScan, hcid, hnotified]
      · simpa [paceScan, hcid] using hended
      · intro h
        obtain ⟨last, hlast, hel⟩ := hearly (by simpa [paceScan, hcid] using h)
        refine ⟨last, ?_, hel⟩
        rw [List.getLast?_cons, hlast]
        rfl

/-- Where it is time for a client, it is for one at least. -/
theorem paceBudget_pos {budget : Nat} (h : s.paceBudget = some budget) : 0 < budget := by
  simp only [paceBudget] at h
  split at h
  · cases h
    split <;> omega
  · cases h

/-- What a scan leaves that went through `front` of the clients behind the last one. -/
structure Scanned (cfg : PaceConfig) (clients : Subscribers) (s : WorkThread)
    (front back : List Nat) (done : WorkDone) : Prop where
  due : s.paceBudget.isSome = true
  split : (List.range cfg.maxClientsThread).drop (s.notifyLastCid + 1).toNat = front ++ back
  notified : done.notifies.map LoopNotify.cid = front.filter (s.eligible clients)
  newJob : done.after.newJob = s.newJob
  index : done.after.latestStratumJobIndex = s.latestStratumJobIndex
  startTime : done.after.notifyStartTime = s.notifyStartTime
  lastCid : done.after.notifyLastCid =
    ((front.filter (s.eligible clients)).getLast?.map Int.ofNat).getD s.notifyLastCid
  remaining : back = [] ∧ done.after.notifyRemainingCount = 0 ∨
    (∃ last, front.getLast? = some last ∧ s.eligible clients last = true) ∧
      done.after.notifyRemainingCount =
        s.notifyRemainingCount - (front.filter (s.eligible clients)).length

/-- A turn that hands out a job does nothing, or scans from behind the client that was
    notified last. -/
theorem pace_cases (cfg : PaceConfig) (clients : Subscribers)
    (hleft : 0 < s.notifyRemainingCount) :
    (s.paceBudget = none ∧ s.pace cfg clients = ⟨s, [], none⟩) ∨
      ∃ front back, Scanned cfg clients s front back (s.pace cfg clients) := by
  cases hbudget : s.paceBudget with
  | none =>
    refine .inl ⟨rfl, ?_⟩
    simp [pace, hleft, paceCids, hbudget]
  | some budget =>
    obtain ⟨front, back, hsplit, hcids, hended, hearly⟩ :=
      paceScan_spec (s.eligible clients) (paceBudget_pos hbudget)
        ((List.range cfg.maxClientsThread).drop (s.notifyLastCid + 1).toNat)
    have hpaced : s.paceCids cfg clients = paceScan (s.eligible clients) budget
        ((List.range cfg.maxClientsThread).drop (s.notifyLastCid + 1).toNat) := by
      rw [paceCids, hbudget]
    refine .inr ⟨front, back, ?_, hsplit, ?_, ?_, ?_, ?_, ?_, ?_⟩
    · rw [hbudget]
      rfl
    · simp [pace, hleft, hpaced, hcids, Function.comp_def]
    · simp [pace, hleft]
    · simp [pace, hleft]
    · simp [pace, hleft]
    · simp [pace, hleft, hpaced, hcids]
    · cases hscan : (paceScan (s.eligible clients) budget
          ((List.range cfg.maxClientsThread).drop (s.notifyLastCid + 1).toNat)).2 with
      | true =>
        refine .inl ⟨hended hscan, ?_⟩
        simp [pace, hleft, hpaced, hscan]
      | false =>
        refine .inr ⟨hearly hscan, ?_⟩
        simp [pace, hleft, hpaced, hscan, hcids]

theorem pace_of_nothing_left (hleft : ¬ 0 < s.notifyRemainingCount) :
    s.pace cfg clients = ⟨s, [], none⟩ := if_neg hleft

/-! ## The turns until another job -/

section Turns

variable (cfg) (jobs : Fin 256 → LoopJob)

/-- A turn while the job of the thread is the latest one. -/
def restTurn (s : WorkThread) (turn : PaceTurn) : WorkDone :=
  s.loopTurn cfg turn.clients s.latestStratumJobIndex jobs turn.readyForFull turn.now

/-- The turns while no other job is published, and whom they notify. -/
def handOut (s : WorkThread) : List PaceTurn → WorkThread × List Nat
  | [] => (s, [])
  | turn :: turns =>
    let done := s.restTurn cfg jobs turn
    let (after, cids) := done.after.handOut turns
    (after, done.notifies.map LoopNotify.cid ++ cids)

/-- In how many of the turns it was time for a client. -/
def dueTurns (s : WorkThread) : List PaceTurn → Nat
  | [] => 0
  | turn :: turns =>
    (if (s.atTime turn.now).paceBudget.isSome then 1 else 0) +
      dueTurns (s.restTurn cfg jobs turn).after turns

variable {cfg} {jobs}

/-- Without a new job a turn only goes on handing out the last one. -/
theorem restTurn_eq (cfg : PaceConfig) (jobs : Fin 256 → LoopJob) (hidle : s.newJob = false)
    (turn : PaceTurn) :
    s.restTurn cfg jobs turn = (s.atTime turn.now).pace cfg turn.clients := by
  have hblast : ((s.atTime turn.now).pace cfg turn.clients).blast = none := by
    unfold pace
    split <;> rfl
  have hrest : (s.atTime turn.now).newJob = false := hidle
  rw [restTurn, loopTurn, pickUp, if_pos rfl]
  simp only [workOn, hrest, Bool.false_eq_true, if_false, List.nil_append]
  rw [← hblast]

/-! ## Nobody twice -/

/-- Those that were notified stand in order, up to the one that is remembered. -/
structure InOrder (s : WorkThread) (cids : List Nat) : Prop where
  idle : s.newJob = false
  lastCid : -1 ≤ s.notifyLastCid
  upTo : ∀ cid ∈ cids, (cid : Int) ≤ s.notifyLastCid
  sorted : cids.Pairwise (· < ·)

theorem mem_drop_range {n k cid : Nat} :
    cid ∈ (List.range n).drop k ↔ k ≤ cid ∧ cid < n := by
  rw [List.range_eq_range', List.drop_range', List.mem_range'_1]
  omega

theorem le_of_getLast? {cids : List Nat} (hsorted : cids.Pairwise (· < ·)) {last : Nat}
    (hlast : cids.getLast? = some last) {cid : Nat} (hcid : cid ∈ cids) : cid ≤ last := by
  obtain ⟨before, rfl⟩ := List.getLast?_eq_some_iff.mp hlast
  rcases List.mem_append.mp hcid with hbefore | hself
  · have hlt := (List.pairwise_append.mp hsorted).2.2 cid hbefore last List.mem_cons_self
    exact Nat.le_of_lt hlt
  · exact Nat.le_of_eq (List.mem_singleton.mp hself)

namespace Scanned

variable {front back : List Nat} {done : WorkDone}

theorem sorted (h : Scanned cfg clients s front back done) :
    (front ++ back).Pairwise (· < ·) := by
  rw [← h.split]
  exact List.pairwise_lt_range.sublist (List.drop_sublist _ _)

theorem behind (h : Scanned cfg clients s front back done) (hlast : -1 ≤ s.notifyLastCid)
    {cid : Nat} :
    cid ∈ front ++ back ↔ s.notifyLastCid < cid ∧ cid < cfg.maxClientsThread := by
  rw [← h.split, mem_drop_range]
  omega

theorem filter_sorted (h : Scanned cfg clients s front back done) :
    (front.filter (s.eligible clients)).Pairwise (· < ·) :=
  (List.pairwise_append.mp h.sorted).1.sublist List.filter_sublist

/-- The client that is remembered is behind the one before, and behind all that were
    notified. -/
theorem lastCid_ge (h : Scanned cfg clients s front back done) (hlast : -1 ≤ s.notifyLastCid) :
    s.notifyLastCid ≤ done.after.notifyLastCid ∧
      ∀ cid ∈ front.filter (s.eligible clients), (cid : Int) ≤ done.after.notifyLastCid := by
  rw [h.lastCid]
  cases hend : (front.filter (s.eligible clients)).getLast? with
  | none =>
    rw [List.getLast?_eq_none_iff] at hend
    simp [hend]
  | some last =>
    have hmem : last ∈ front ++ back :=
      List.mem_append_left _ (List.mem_of_mem_filter (List.mem_of_getLast? hend))
    refine ⟨le_of_lt ((h.behind hlast).mp hmem).1, ?_⟩
    intro cid hcid
    exact Int.ofNat_le.mpr (le_of_getLast? h.filter_sorted hend hcid)

end Scanned

theorem InOrder.scan {cids front back : List Nat} {done : WorkDone} (h : InOrder s cids)
    (hscan : Scanned cfg clients s front back done) :
    InOrder done.after (cids ++ done.notifies.map LoopNotify.cid) := by
  obtain ⟨hkept, hupTo⟩ := hscan.lastCid_ge h.lastCid
  rw [hscan.notified]
  refine ⟨hscan.newJob.trans h.idle, h.lastCid.trans hkept, ?_, ?_⟩
  · intro cid hcid
    rcases List.mem_append.mp hcid with hold | hnew
    · exact (h.upTo cid hold).trans hkept
    · exact hupTo cid hnew
  · refine List.pairwise_append.mpr ⟨h.sorted, hscan.filter_sorted, ?_⟩
    intro old hold new hnew
    have hbefore := h.upTo old hold
    have hbehind := (hscan.behind h.lastCid).mp
      (List.mem_append_left back (List.mem_of_mem_filter hnew))
    omega

/-- The clock does not matter for who was notified. -/
theorem InOrder.tick {cids : List Nat} (h : InOrder s cids) (now : UInt64) :
    InOrder (s.atTime now) cids := ⟨h.idle, h.lastCid, h.upTo, h.sorted⟩

theorem InOrder.restTurn (cfg : PaceConfig) (jobs : Fin 256 → LoopJob) {cids : List Nat}
    (h : InOrder s cids) (turn : PaceTurn) :
    InOrder (s.restTurn cfg jobs turn).after
      (cids ++ (s.restTurn cfg jobs turn).notifies.map LoopNotify.cid) := by
  rw [restTurn_eq cfg jobs h.idle]
  by_cases hleft : 0 < (s.atTime turn.now).notifyRemainingCount
  · rcases pace_cases cfg turn.clients hleft with ⟨-, hpace⟩ | ⟨front, back, hscan⟩
    · rw [hpace]
      simpa using h.tick turn.now
    · exact (h.tick turn.now).scan hscan
  · rw [pace_of_nothing_left hleft]
    simpa using h.tick turn.now

theorem InOrder.handOut {cids : List Nat} (h : InOrder s cids) (turns : List PaceTurn) :
    InOrder (s.handOut cfg jobs turns).1 (cids ++ (s.handOut cfg jobs turns).2) := by
  induction turns generalizing s cids with
  | nil => simpa [WorkThread.handOut] using h
  | cons turn turns ih =>
    have hnext := ih (h.restTurn cfg jobs turn)
    rw [List.append_assoc] at hnext
    exact hnext

/-! ## Everybody who was counted -/

/-- Of the clients that were counted, as many are left as were not notified yet; and of
    those that stay, the ones up to the last client were notified. -/
structure HandedOut (start : UInt64) (counted : List Nat) (stays : Nat → Prop) (s : WorkThread)
    (cids : List Nat) : Prop extends InOrder s cids where
  startTime : s.notifyStartTime = start
  wasCounted : cids ⊆ counted
  left : 0 < s.notifyRemainingCount →
    s.notifyRemainingCount = counted.length - cids.length ∧
      ∀ cid, stays cid → (cid : Int) ≤ s.notifyLastCid → cid ∈ cids
  done : ¬ 0 < s.notifyRemainingCount → ∀ cid, stays cid → cid ∈ cids

/-- Nobody is taken for a counted client in a turn, and those that stay are there. -/
structure TurnSees (cfg : PaceConfig) (start : UInt64) (counted : List Nat) (stays : Nat → Prop)
    (turn : PaceTurn) : Prop where
  noneLate : ∀ cid < cfg.maxClientsThread, ∀ subscribeTsms,
    turn.clients cid = some subscribeTsms →
    subscribeTsms ≤ start → cid ∈ counted
  staying : ∀ cid, stays cid → ∃ subscribeTsms, turn.clients cid = some subscribeTsms ∧
    subscribeTsms ≤ start

section HandedOut

variable {start : UInt64} {counted : List Nat} {stays : Nat → Prop}

theorem eligible_iff {cid : Nat} :
    s.eligible clients cid = true ↔
      ∃ subscribeTsms, clients cid = some subscribeTsms ∧
        subscribeTsms ≤ s.notifyStartTime := by
  unfold eligible
  cases clients cid <;> simp

theorem HandedOut.tick {cids : List Nat} (h : HandedOut start counted stays s cids)
    (now : UInt64) : HandedOut start counted stays (s.atTime now) cids :=
  ⟨h.toInOrder.tick now, h.startTime, h.wasCounted, h.left, h.done⟩

/-- All counted clients were notified once none is left. -/
theorem subset_of_length_le {cids counted : List Nat} (hnodup : cids.Nodup)
    (hsub : cids ⊆ counted)
    (hlength : counted.length ≤ cids.length) : counted ⊆ cids :=
  ((hnodup.subperm hsub).perm_of_length_le hlength).symm.subset

theorem HandedOut.scan {cids front back : List Nat} {turn : PaceTurn} {done : WorkDone}
    (h : HandedOut start counted stays s cids) (hstays : ∀ cid, stays cid → cid ∈ counted)
    (hbound : ∀ cid, stays cid → cid < cfg.maxClientsThread)
    (hsees : TurnSees cfg start counted stays turn) (hleft : 0 < s.notifyRemainingCount)
    (hscan : Scanned cfg turn.clients s front back done) :
    HandedOut start counted stays done.after (cids ++ done.notifies.map LoopNotify.cid) := by
  have horder := h.toInOrder.scan hscan
  obtain ⟨hremaining, hpast⟩ := h.left hleft
  have hsub : cids ++ done.notifies.map LoopNotify.cid ⊆ counted := by
    rw [hscan.notified]
    refine List.append_subset.mpr ⟨h.wasCounted, ?_⟩
    intro cid hcid
    obtain ⟨hfront, hel⟩ := List.mem_filter.mp hcid
    obtain ⟨subscribeTsms, hclient, hle⟩ := eligible_iff.mp hel
    rw [h.startTime] at hle
    exact hsees.noneLate cid
      ((hscan.behind h.lastCid).mp (List.mem_append_left _ hfront)).2 subscribeTsms hclient hle
  -- Whoever stays and was passed by the scan was notified by it.
  have hfront : ∀ cid, stays cid → cid ∈ front →
      cid ∈ cids ++ done.notifies.map LoopNotify.cid := by
    intro cid hcid hmem
    obtain ⟨subscribeTsms, hclient, hle⟩ := hsees.staying cid hcid
    rw [hscan.notified]
    refine List.mem_append_right _ (List.mem_filter.mpr ⟨hmem, ?_⟩)
    exact eligible_iff.mpr ⟨subscribeTsms, hclient, h.startTime.symm ▸ hle⟩
  have hsplit : ∀ cid, stays cid → cid ∈ cids ∨ cid ∈ front ++ back := by
    intro cid hcid
    by_cases hbefore : (cid : Int) ≤ s.notifyLastCid
    · exact .inl (hpast cid hcid hbefore)
    · exact .inr ((hscan.behind h.lastCid).mpr ⟨by omega, hbound cid hcid⟩)
  refine ⟨horder, hscan.startTime.trans h.startTime, hsub, ?_, ?_⟩
  · intro hstill
    rcases hscan.remaining with ⟨-, hzero⟩ | ⟨⟨last, hlast, hel⟩, hless⟩
    · omega
    · constructor
      · rw [hless, hscan.notified, hremaining, List.length_append]
        push_cast
        omega
      · intro cid hcid hupTo
        rcases hsplit cid hcid with hold | hnew
        · exact List.mem_append_left _ hold
        · rcases List.mem_append.mp hnew with hmem | hback
          · exact hfront cid hcid hmem
          · -- The last one that was notified stands in front of all that are left.
            exfalso
            have hend : (front.filter (s.eligible turn.clients)).getLast? = some last := by
              obtain ⟨before, rfl⟩ := List.getLast?_eq_some_iff.mp hlast
              simp [List.filter_append, hel]
            rw [hscan.lastCid, hend] at hupTo
            have hlt := (List.pairwise_append.mp hscan.sorted).2.2 last
              (List.mem_of_getLast? hlast) cid hback
            simp only [Option.map_some, Option.getD_some, Int.ofNat_eq_natCast] at hupTo
            omega
  · intro hnone cid hcid
    rcases hscan.remaining with ⟨hback, -⟩ | ⟨-, hless⟩
    · rcases hsplit cid hcid with hold | hnew
      · exact List.mem_append_left _ hold
      · rw [hback, List.append_nil] at hnew
        exact hfront cid hcid hnew
    · refine subset_of_length_le (horder.sorted.imp Nat.ne_of_lt) hsub ?_ (hstays cid hcid)
      rw [hscan.notified, List.length_append]
      rw [hless, hremaining] at hnone
      omega

theorem HandedOut.restTurn (jobs : Fin 256 → LoopJob) {cids : List Nat} {turn : PaceTurn}
    (h : HandedOut start counted stays s cids) (hstays : ∀ cid, stays cid → cid ∈ counted)
    (hbound : ∀ cid, stays cid → cid < cfg.maxClientsThread)
    (hsees : TurnSees cfg start counted stays turn) :
    HandedOut start counted stays (s.restTurn cfg jobs turn).after
      (cids ++ (s.restTurn cfg jobs turn).notifies.map LoopNotify.cid) := by
  rw [restTurn_eq cfg jobs h.idle]
  by_cases hleft : 0 < (s.atTime turn.now).notifyRemainingCount
  · rcases pace_cases cfg turn.clients hleft with ⟨-, hpace⟩ | ⟨front, back, hscan⟩
    · rw [hpace]
      simpa using h.tick turn.now
    · exact (h.tick turn.now).scan hstays hbound hsees hleft hscan
  · rw [pace_of_nothing_left hleft]
    simpa using h.tick turn.now

theorem HandedOut.handOut (jobs : Fin 256 → LoopJob) {cids : List Nat} {turns : List PaceTurn}
    (h : HandedOut start counted stays s cids) (hstays : ∀ cid, stays cid → cid ∈ counted)
    (hbound : ∀ cid, stays cid → cid < cfg.maxClientsThread)
    (hsees : ∀ turn ∈ turns, TurnSees cfg start counted stays turn) :
    HandedOut start counted stays (s.handOut cfg jobs turns).1
      (cids ++ (s.handOut cfg jobs turns).2) := by
  induction turns generalizing s cids with
  | nil => simpa [WorkThread.handOut] using h
  | cons turn turns ih =>
    have hnext := ih
      (h.restTurn jobs hstays hbound (hsees turn List.mem_cons_self))
      fun later hlater => hsees later (List.mem_cons_of_mem _ hlater)
    rw [List.append_assoc] at hnext
    exact hnext

/-- A job that was taken up for some clients has gone to none of them. -/
theorem handedOut_workSent (hsome : 0 < (subscriberCids cfg clients).length)
    (stays : Nat → Prop) :
    HandedOut s.loopTsms (subscriberCids cfg clients) stays (s.startPacing cfg clients).workSent
      [] := by
  have hbegun : (s.startPacing cfg clients).workSent.notifyRemainingCount =
        (subscriberCids cfg clients).length ∧
      (s.startPacing cfg clients).workSent.notifyLastCid = -1 ∧
      (s.startPacing cfg clients).workSent.notifyStartTime = s.loopTsms ∧
      (s.startPacing cfg clients).workSent.newJob = false := by
    simp [startPacing, workSent, hsome]
  obtain ⟨hremaining, hlast, hstart, hidle⟩ := hbegun
  have horder : InOrder (s.startPacing cfg clients).workSent [] :=
    ⟨hidle, by omega, by simp, List.Pairwise.nil⟩
  refine ⟨horder, hstart, List.nil_subset _, fun _ => ⟨?_, ?_⟩, fun hnone => ?_⟩
  · simpa using hremaining
  · intro cid _ hle
    omega
  · omega

end HandedOut

/-! ## In how many turns -/

theorem handOut_of_nothing_left (cfg : PaceConfig) (jobs : Fin 256 → LoopJob)
    (hidle : s.newJob = false) (hleft : ¬ 0 < s.notifyRemainingCount) (turns : List PaceTurn) :
    (s.handOut cfg jobs turns).2 = [] ∧
      (s.handOut cfg jobs turns).1.notifyRemainingCount = s.notifyRemainingCount := by
  induction turns generalizing s with
  | nil => exact ⟨rfl, rfl⟩
  | cons turn turns ih =>
    have hturn : s.restTurn cfg jobs turn = ⟨s.atTime turn.now, [], none⟩ := by
      rw [restTurn_eq cfg jobs hidle]
      exact pace_of_nothing_left (s := s.atTime turn.now) hleft
    have hnext := ih (s := s.atTime turn.now) hidle hleft
    simp only [handOut, hturn]
    exact hnext

/-- As long as clients are left, every turn at which it is time notifies one. -/
theorem dueTurns_le (cfg : PaceConfig) (jobs : Fin 256 → LoopJob) {cids : List Nat}
    (h : InOrder s cids) (turns : List PaceTurn)
    (hleft : 0 < (s.handOut cfg jobs turns).1.notifyRemainingCount) :
    s.dueTurns cfg jobs turns ≤ (s.handOut cfg jobs turns).2.length := by
  induction turns generalizing s cids with
  | nil => exact Nat.zero_le _
  | cons turn turns ih =>
    have hbegin : 0 < (s.atTime turn.now).notifyRemainingCount := by
      by_contra hnone
      obtain ⟨-, heq⟩ := handOut_of_nothing_left cfg jobs h.idle hnone
        (turn :: turns)
      rw [heq] at hleft
      exact hnone hleft
    have hafter := h.restTurn cfg jobs turn
    have hnext := ih hafter hleft
    simp only [dueTurns, handOut, List.length_append]
    rcases pace_cases cfg turn.clients hbegin with ⟨hnone, -⟩ | ⟨front, back, hscan⟩
    · rw [hnone]
      simpa using Nat.le_add_left_of_le hnext
    · rw [← restTurn_eq cfg jobs h.idle] at hscan
      rcases hscan.remaining with ⟨-, hzero⟩ | ⟨⟨last, hlast, hel⟩, -⟩
      · -- The scan came to the end, so that nobody is left.
        obtain ⟨-, heq⟩ := handOut_of_nothing_left cfg jobs hafter.idle
          (by omega) turns
        simp only [handOut] at hleft
        rw [heq] at hleft
        omega
      · have hmem : last ∈ front.filter ((s.atTime turn.now).eligible turn.clients) :=
          List.mem_filter.mpr ⟨List.mem_of_getLast? hlast, hel⟩
        have hone := List.length_pos_of_mem hmem
        rw [← hscan.notified] at hone
        split <;> omega

/-! ## The whole job -/

/-- A job that is handed out goes to no client twice and only to counted ones, in the order
    of their slots; after as many turns with a notify due as there are clients, it has gone
    to all of them that stayed. A later subscriber must not be taken for one of them. -/
theorem handOut_once (cfg : PaceConfig) (jobs : Fin 256 → LoopJob) (s : WorkThread)
    (clients : Subscribers) (turns : List PaceTurn)
    (hlate : ∀ turn ∈ turns, ∀ cid < cfg.maxClientsThread, ∀ subscribeTsms,
      turn.clients cid = some subscribeTsms → subscribeTsms ≤ s.loopTsms →
        cid ∈ subscriberCids cfg clients) :
    let begun := (s.startPacing cfg clients).workSent
    let cids := (begun.handOut cfg jobs turns).2
    cids.Pairwise (· < ·) ∧ cids ⊆ subscriberCids cfg clients ∧
      ((subscriberCids cfg clients).length ≤ begun.dueTurns cfg jobs turns →
        (begun.handOut cfg jobs turns).1.notifyRemainingCount ≤ 0 ∧
        ∀ cid ∈ subscriberCids cfg clients,
          (∀ turn ∈ turns, ∃ subscribeTsms, turn.clients cid = some subscribeTsms ∧
            subscribeTsms ≤ s.loopTsms) →
          cid ∈ cids) := by
  intro begun cids
  by_cases hsome : 0 < (subscriberCids cfg clients).length
  · have hrun (stays : Nat → Prop)
        (hstays : ∀ cid, stays cid → cid ∈ subscriberCids cfg clients)
        (hthere : ∀ cid, stays cid → ∀ turn ∈ turns, ∃ subscribeTsms,
          turn.clients cid = some subscribeTsms ∧ subscribeTsms ≤ s.loopTsms) :
        HandedOut s.loopTsms (subscriberCids cfg clients) stays (begun.handOut cfg jobs turns).1
          cids := by
      have hbound : ∀ cid, stays cid → cid < cfg.maxClientsThread := fun cid hcid =>
        List.mem_range.mp (List.mem_of_mem_filter (hstays cid hcid))
      simpa using (handedOut_workSent hsome stays).handOut jobs hstays hbound fun turn hturn =>
        ⟨hlate turn hturn, fun cid hcid => hthere cid hcid turn hturn⟩
    have hnobody := hrun (fun _ => False) (fun _ h => h.elim) fun _ h => h.elim
    refine ⟨hnobody.sorted, hnobody.wasCounted, fun hdue => ?_⟩
    have hnone : ¬ 0 < (begun.handOut cfg jobs turns).1.notifyRemainingCount := by
      intro hleft
      have horder := (handedOut_workSent (s := s) hsome fun _ => False).toInOrder
      have hless := dueTurns_le (s := begun) cfg jobs horder turns hleft
      have hcount := (hnobody.left hleft).1
      have hlen : ((begun.handOut cfg jobs turns).2.length : Int) = cids.length := rfl
      omega
    refine ⟨not_lt.mp hnone, fun cid hcid hthere => ?_⟩
    exact (hrun (fun c => c = cid) (fun c hc => hc ▸ hcid) (fun c hc => hc ▸ hthere)).done hnone
      cid rfl
  · have hnobody : subscriberCids cfg clients = [] :=
      List.length_eq_zero_iff.mp (Nat.eq_zero_of_not_pos hsome)
    have hbegun : begun.notifyRemainingCount = 0 ∧ begun.newJob = false := by
      simp [begun, startPacing, workSent, hnobody]
    obtain ⟨hnotified, hremaining⟩ := handOut_of_nothing_left cfg jobs hbegun.2
      (by omega) turns
    have hcids : cids = [] := hnotified
    rw [hcids]
    refine ⟨List.Pairwise.nil, List.nil_subset _, fun _ => ⟨by omega, ?_⟩⟩
    simp [hnobody]

end Turns

end WorkThread

/-! ## A late subscriber -/

/-- Eight slots and one thread. -/
def eightSlots : PaceConfig where
  maxClientsThread := 8
  maxThreads := 1
  threadId := 0
  bitcoindWorkUpdateSeconds := 5
  updates_apart := Nat.le_refl 5

/-- Slots one and five, subscribed for a while. -/
def twoSubscribers : Subscribers := fun cid => if cid = 1 ∨ cid = 5 then some 900 else none

/-- Behind them a client has subscribed to slot three. -/
def thirdSubscriber (subscribeTsms : UInt64) : Subscribers := fun cid =>
  if cid = 3 then some subscribeTsms else twoSubscribers cid

/-- A job without a new block. -/
def normalJob : LoopJob := ⟨5, 0, 1000, false⟩

/-- A thread at the time 1000, its job taken up. -/
def pacingThread : WorkThread := { WorkThread.init 0 with newJob := true, loopTsms := 1000 }

/-- Turns of the loop a second apart. -/
def secondTurns (subscribeTsms : UInt64) : List PaceTurn :=
  [⟨1000, twoSubscribers, false⟩, ⟨2000, thirdSubscriber subscribeTsms, false⟩,
    ⟨3000, thirdSubscriber subscribeTsms, false⟩]

/-- Who has subscribed until the time 1000, where the third client has not. -/
theorem counted_of_le {cid : Nat} {subscribeTsms : UInt64}
    (hclient : thirdSubscriber 1001 cid = some subscribeTsms) (hle : subscribeTsms ≤ 1000) :
    cid ∈ WorkThread.subscriberCids eightSlots twoSubscribers := by
  unfold thirdSubscriber twoSubscribers at hclient
  split at hclient
  · cases hclient
    exact absurd hle (by decide)
  · split at hclient
    · next hcounted => rcases hcounted with rfl | rfl <;> decide +kernel
    · cases hclient

theorem twoSubscribers_third {cid : Nat} {subscribeTsms late : UInt64}
    (hclient : twoSubscribers cid = some subscribeTsms) :
    thirdSubscriber late cid = some subscribeTsms := by
  unfold thirdSubscriber
  split
  · next hthree =>
    rw [hthree, show twoSubscribers 3 = none by decide] at hclient
    cases hclient
  · exact hclient

/-- A client that subscribes a millisecond later is passed over. -/
theorem handOut_once_two :
    ((((pacingThread.startPacing eightSlots twoSubscribers).workSent).handOut eightSlots
      (fun _ => normalJob) (secondTurns 1001)).2 = [1, 5]) ∧
    5 ∈ (((pacingThread.startPacing eightSlots twoSubscribers).workSent).handOut eightSlots
      (fun _ => normalJob) (secondTurns 1001)).2 := by
  refine ⟨by decide +kernel, ?_⟩
  refine ((WorkThread.handOut_once eightSlots (fun _ => normalJob) pacingThread twoSubscribers
    (secondTurns 1001) ?_).2.2 (by decide +kernel)).2 5 (by decide +kernel) ?_
  · intro turn hturn cid _ subscribeTsms hclient hle
    simp only [secondTurns, List.mem_cons, List.not_mem_nil, or_false] at hturn
    rcases hturn with rfl | rfl | rfl
    · exact counted_of_le (twoSubscribers_third hclient) hle
    · exact counted_of_le hclient hle
    · exact counted_of_le hclient hle
  · simp [secondTurns, thirdSubscriber, twoSubscribers, pacingThread]

end ChirpGateway
