import ChirpGateway.Rpc.Submitblock
import Mathlib.Data.Fintype.Basic

/-!
# Waking the submit thread

One condition variable serves the submit thread, the threads with a block to hand
over and those that wait until nothing is handed over
(`datum_submitblock.c:129-198`). Each section under the mutex is a step; the
submit thread's is two, since it sends the block inside. A thread that was woken
runs again once it has the mutex.
-/

namespace ChirpGateway

open Transition

/-- What a thread calls. -/
inductive HandoverCall (ρ : Type) where
  | trigger (ptr : ρ) (hash : List UInt8)
  | waitfree
  deriving DecidableEq

/-- A thread with respect to the mutex and the condition variable. -/
inductive Waiting (κ : Type) where
  | idle
  /-- it wants the mutex -/
  | awake (call : κ)
  /-- in `pthread_cond_wait` -/
  | asleep (call : κ)
  deriving DecidableEq

/-- The submit thread. -/
inductive SubmitThread where
  | awake
  | asleep
  /-- with the mutex, behind the wait -/
  | serving
  deriving DecidableEq

/-- The variables under the mutex and the threads. The last two are not in the source:
    what was handed over and what was sent. -/
structure HandoverState (τ ρ : Type) where
  submitBlockTriggered : Bool
  submitblockPtr : Option ρ
  submitblockHash : List UInt8
  submitThread : SubmitThread
  threads : τ → Waiting (HandoverCall ρ)
  accepted : List (ρ × List UInt8)
  consumed : List (ρ × List UInt8)

/-- Steps. `signal` is the thread a signal wakes, where `none` stands for the submit
    thread, if anyone sleeps. -/
inductive HandoverEvent (τ ρ : Type) where
  | trigger (thread : τ) (ptr : Option ρ) (hash : List UInt8)
  | waitfree (thread : τ)
  | runThread (thread : τ) (signal : Option (Option τ))
  | runSubmit
  | served
  /-- `pthread_cond_wait` returns without a wake-up -/
  | spurious (waiter : Option τ)

/-- The steps of the submit thread. -/
def HandoverEvent.OfSubmit {τ ρ : Type} : HandoverEvent τ ρ → Prop
  | .runSubmit | .served => True
  | _ => False

variable {τ ρ : Type}

namespace HandoverState

/-- Whether a thread, or the submit thread, sleeps. -/
def sleeps (s : HandoverState τ ρ) : Option τ → Bool
  | none => s.submitThread = .asleep
  | some thread =>
    match s.threads thread with
    | .asleep _ => true
    | _ => false

def setThread [DecidableEq τ] (s : HandoverState τ ρ) (thread : τ)
    (next : Waiting (HandoverCall ρ)) : HandoverState τ ρ :=
  { s with threads := Function.update s.threads thread next }

/-- The waiter leaves `pthread_cond_wait`. -/
def wake [DecidableEq τ] (s : HandoverState τ ρ) : Option τ → HandoverState τ ρ
  | none => { s with submitThread := .awake }
  | some thread =>
    match s.threads thread with
    | .asleep call => s.setThread thread (.awake call)
    | _ => s

/-- `pthread_cond_broadcast`. -/
def wakeThreads (s : HandoverState τ ρ) : HandoverState τ ρ :=
  { s with
    threads := fun thread =>
      match s.threads thread with
      | .asleep call => .awake call
      | next => next }

/-- What the signal may do: wake somebody who sleeps, and nobody only if nobody does. -/
def mayWake [Fintype τ] (s : HandoverState τ ρ) : Option (Option τ) → Bool
  | some waiter => s.sleeps waiter
  | none => !s.sleeps none && decide (∀ thread, s.sleeps (some thread) = false)

/-- Behind the loop of `datum_submitblock_trigger`. -/
def handOver [DecidableEq τ] (s : HandoverState τ ρ) (ptr : ρ) (hash : List UInt8)
    (signal : Option (Option τ)) : HandoverState τ ρ :=
  let handed : HandoverState τ ρ :=
    { s with
      submitblockPtr := some ptr
      submitblockHash := hash
      submitBlockTriggered := true
      accepted := s.accepted ++ [(ptr, hash)] }
  match signal with
  | none => handed
  | some waiter => handed.wake waiter

def step [DecidableEq τ] [Fintype τ] (s : HandoverState τ ρ) :
    HandoverEvent τ ρ → Option (HandoverState τ ρ)
  | .trigger thread ptr hash =>
    match s.threads thread with
    | .idle =>
      match ptr with
      | none => some s
      | some ptr =>
        if submitblockHashSize ≤ hash.length then
          some s
        else
          some (s.setThread thread (.awake (.trigger ptr hash)))
    | _ => none
  | .waitfree thread =>
    match s.threads thread with
    | .idle => some (s.setThread thread (.awake .waitfree))
    | _ => none
  | .runThread thread signal =>
    if s.submitThread = .serving then
      none
    else
      match s.threads thread with
      | .awake call =>
        if s.submitBlockTriggered || s.submitblockPtr.isSome then
          some (s.setThread thread (.asleep call))
        else
          match call with
          | .waitfree => some (s.setThread thread .idle)
          | .trigger ptr hash =>
            let left := s.setThread thread .idle
            if left.mayWake signal then some (left.handOver ptr hash signal) else none
      | _ => none
  | .runSubmit =>
    match s.submitThread with
    | .awake =>
      some { s with submitThread := if s.submitBlockTriggered then .serving else .asleep }
    | _ => none
  | .served =>
    match s.submitThread with
    | .serving =>
      let sent : HandoverState τ ρ :=
        match s.submitblockPtr with
        | none => s
        | some ptr =>
          { s with consumed := s.consumed ++ [(ptr, s.submitblockHash)], submitblockPtr := none }
      some { sent.wakeThreads with submitBlockTriggered := false, submitThread := .awake }
    | _ => none
  | .spurious waiter => if s.sleeps waiter then some (s.wake waiter) else none

/-- What is handed over and not yet sent. -/
def pending (s : HandoverState τ ρ) : List (ρ × List UInt8) :=
  match s.submitblockPtr with
  | none => []
  | some ptr => [(ptr, s.submitblockHash)]

/-- At the start of the gateway. -/
def Fresh (s : HandoverState τ ρ) : Prop :=
  s.submitBlockTriggered = false ∧ s.submitblockPtr = none ∧ s.submitThread = .awake ∧
    (∀ thread, s.threads thread = .idle) ∧ s.accepted = [] ∧ s.consumed = []

end HandoverState

/-- The exchange over the condition variable. -/
def handoverSystem (τ ρ : Type) [DecidableEq τ] [Fintype τ] :
    System (HandoverState τ ρ) (HandoverEvent τ ρ) where
  step := HandoverState.step

namespace HandoverState

/-- Who can sleep: the submit thread only while nothing is handed over, any other thread
    only while something is. So a signal finds nobody but the submit thread asleep. -/
structure Attentive (s : HandoverState τ ρ) : Prop where
  triggered : s.submitBlockTriggered = s.submitblockPtr.isSome
  submit : s.submitBlockTriggered = true → s.submitThread ≠ .asleep
  serving : s.submitThread = .serving → s.submitBlockTriggered = true
  threads : s.submitBlockTriggered = false → ∀ thread, s.sleeps (some thread) = false
  consumed : s.consumed ++ s.pending = s.accepted

theorem Fresh.attentive {s : HandoverState τ ρ} (h : s.Fresh) : s.Attentive := by
  obtain ⟨htriggered, hptr, hsubmit, hthreads, haccepted, hconsumed⟩ := h
  refine ⟨?_, ?_, ?_, ?_, ?_⟩
  · rw [htriggered, hptr]
    rfl
  · rw [htriggered]
    exact nofun
  · rw [hsubmit]
    exact nofun
  · intro _ thread
    rw [sleeps, hthreads]
  · rw [hconsumed, pending, hptr, haccepted]
    rfl

/-- What is handed over while nothing was, with the submit thread awake. -/
theorem Attentive.handed {s : HandoverState τ ρ} (h : s.Attentive)
    (hfree : s.submitblockPtr = none) (hawake : s.submitThread ≠ .asleep) (ptr : ρ)
    (hash : List UInt8) :
    Attentive
      { s with
        submitblockPtr := some ptr
        submitblockHash := hash
        submitBlockTriggered := true
        accepted := s.accepted ++ [(ptr, hash)] } := by
  have hconsumed := h.consumed
  rw [pending, hfree, List.append_nil] at hconsumed
  refine ⟨rfl, fun _ => hawake, fun _ => rfl, nofun, ?_⟩
  show s.consumed ++ [(ptr, hash)] = s.accepted ++ [(ptr, hash)]
  rw [hconsumed]

section Threads

variable [DecidableEq τ]

theorem sleeps_setThread_of_ne (s : HandoverState τ ρ) {thread other : τ}
    (next : Waiting (HandoverCall ρ)) (hne : other ≠ thread) :
    (s.setThread thread next).sleeps (some other) = s.sleeps (some other) := by
  simp only [sleeps, setThread, Function.update_of_ne hne]

theorem sleeps_setThread_self (s : HandoverState τ ρ) (thread : τ)
    {next : Waiting (HandoverCall ρ)} (hnext : ∀ call, next ≠ .asleep call) :
    (s.setThread thread next).sleeps (some thread) = false := by
  simp only [sleeps, setThread, Function.update_self]

/-- A thread that does not go to sleep. -/
theorem Attentive.setThread {s : HandoverState τ ρ} (h : s.Attentive) (thread : τ)
    {next : Waiting (HandoverCall ρ)}
    (hnext : (∀ call, next ≠ .asleep call) ∨ s.submitBlockTriggered = true) :
    (s.setThread thread next).Attentive := by
  refine ⟨h.triggered, h.submit, h.serving, ?_, h.consumed⟩
  intro hfree other
  by_cases hother : other = thread
  · subst hother
    rcases hnext with hawake | htriggered
    · exact sleeps_setThread_self s other hawake
    · exact absurd (htriggered.symm.trans hfree) Bool.true_eq_false.mp
  · rw [sleeps_setThread_of_ne s next hother]
    exact h.threads hfree other

theorem Attentive.wake {s : HandoverState τ ρ} (h : s.Attentive) {waiter : Option τ}
    (hasleep : s.sleeps waiter = true) : (s.wake waiter).Attentive := by
  cases waiter with
  | none => exact ⟨h.triggered, fun _ => nofun, nofun, h.threads, h.consumed⟩
  | some thread =>
    rw [HandoverState.wake]
    split
    · exact h.setThread thread (Or.inl nofun)
    · exact h

/-- The signal finds the submit thread if it sleeps, since nobody else does. -/
theorem Attentive.handOver [Fintype τ] {s : HandoverState τ ρ} (h : s.Attentive)
    (hfree : (s.submitBlockTriggered || s.submitblockPtr.isSome) = false) (ptr : ρ)
    (hash : List UInt8) {signal : Option (Option τ)} (hsignal : s.mayWake signal = true) :
    (s.handOver ptr hash signal).Attentive := by
  rw [Bool.or_eq_false_iff] at hfree
  have hptr : s.submitblockPtr = none :=
    Option.isNone_iff_eq_none.mp (Option.isSome_eq_false_iff.mp hfree.2)
  cases signal with
  | none =>
    rw [mayWake, Bool.and_eq_true, Bool.not_eq_true'] at hsignal
    exact h.handed hptr (of_decide_eq_false hsignal.1) ptr hash
  | some waiter =>
    cases waiter with
    | none =>
      have hwoken : (s.wake none).Attentive := h.wake hsignal
      exact hwoken.handed hptr nofun ptr hash
    | some thread =>
      have hasleep : s.sleeps (some thread) = true := hsignal
      exact absurd (hasleep.symm.trans (h.threads hfree.1 thread)) Bool.true_eq_false.mp

/-- Everybody is woken when the block is sent. -/
theorem Attentive.served {s : HandoverState τ ρ} (h : s.Attentive) {s' : HandoverState τ ρ}
    [Fintype τ] (hstep : s.step .served = some s') : s'.Attentive := by
  simp only [HandoverState.step] at hstep
  split at hstep
  · next hserving =>
    have htriggered := h.serving hserving
    have hawake (sent : HandoverState τ ρ) (thread : τ) :
        ({ sent.wakeThreads with submitBlockTriggered := false, submitThread := .awake } :
          HandoverState τ ρ).sleeps (some thread) = false := by
      simp only [sleeps, wakeThreads]
      cases sent.threads thread <;> rfl
    have hconsumed := h.consumed
    cases hptr : s.submitblockPtr with
    | none =>
      rw [h.triggered, hptr] at htriggered
      cases htriggered
    | some ptr =>
      rw [hptr] at hstep
      rw [pending, hptr] at hconsumed
      rw [← Option.some.inj hstep]
      refine ⟨rfl, nofun, nofun, fun _ => hawake _, ?_⟩
      show (s.consumed ++ [(ptr, s.submitblockHash)]) ++ [] = s.accepted
      rw [List.append_nil]
      exact hconsumed
  · cases hstep

theorem Attentive.step [Fintype τ] {s s' : HandoverState τ ρ} (h : s.Attentive)
    {event : HandoverEvent τ ρ} (hstep : s.step event = some s') : s'.Attentive := by
  cases event with
  | trigger thread ptr hash =>
    simp only [HandoverState.step] at hstep
    split at hstep
    · split at hstep
      · rw [← Option.some.inj hstep]
        exact h
      · split at hstep
        · rw [← Option.some.inj hstep]
          exact h
        · rw [← Option.some.inj hstep]
          exact h.setThread thread (Or.inl nofun)
    · cases hstep
  | waitfree thread =>
    simp only [HandoverState.step] at hstep
    split at hstep
    · rw [← Option.some.inj hstep]
      exact h.setThread thread (Or.inl nofun)
    · cases hstep
  | runThread thread signal =>
    simp only [HandoverState.step] at hstep
    split at hstep
    · cases hstep
    · split at hstep
      · split at hstep
        · next hbusy =>
          -- back to sleep, while something is handed over
          rw [← Option.some.inj hstep]
          apply h.setThread thread
          rw [h.triggered, Bool.or_self] at hbusy
          exact Or.inr (h.triggered.trans hbusy)
        · next hfree =>
          split at hstep
          · rw [← Option.some.inj hstep]
            exact h.setThread thread (Or.inl nofun)
          · split at hstep
            · next hsignal =>
              rw [← Option.some.inj hstep]
              have hleft : (s.setThread thread .idle).Attentive := h.setThread thread (Or.inl nofun)
              exact hleft.handOver (Bool.eq_false_iff.mpr hfree) _ _ hsignal
            · cases hstep
      · cases hstep
  | runSubmit =>
    simp only [HandoverState.step] at hstep
    split at hstep
    · rw [← Option.some.inj hstep]
      refine ⟨h.triggered, ?_, ?_, h.threads, h.consumed⟩
      · intro (htriggered : s.submitBlockTriggered = true)
        simp only [if_pos htriggered]
        exact nofun
      · intro hserving
        by_contra htriggered
        simp only [if_neg htriggered] at hserving
        cases hserving
    · cases hstep
  | served => exact h.served hstep
  | spurious waiter =>
    simp only [HandoverState.step] at hstep
    split at hstep
    · next hasleep =>
      rw [← Option.some.inj hstep]
      exact h.wake hasleep
    · cases hstep

end Threads

end HandoverState

section Runs

variable [DecidableEq τ] [Fintype τ]

/-- The submit thread goes on alone. -/
abbrev SubmitsTo (s : HandoverState τ ρ) : HandoverState τ ρ → Prop :=
  (handoverSystem τ ρ).ReachedBy (fun _ event => event.OfSubmit) (· = s)

/-- What a hand-over can rely on. -/
structure HandoverState.LosesNothing (s : HandoverState τ ρ) : Prop where
  /-- each pair is sent once and with its own hash, in the order they were accepted, and
      at most the last is still to be sent -/
  consumed : s.consumed ++ s.pending = s.accepted
  /-- nobody sleeps through it -/
  awake : s.pending ≠ [] → s.submitThread ≠ .asleep
  /-- and nobody else has to move for it to be sent -/
  exists_consumed : ∃ s', SubmitsTo s s' ∧ s'.accepted = s.accepted ∧ s'.consumed = s.accepted

theorem HandoverState.Attentive.exists_served {s : HandoverState τ ρ} (h : s.Attentive)
    (hserving : s.submitThread = .serving) :
    ∃ s', SubmitsTo s s' ∧ s'.accepted = s.accepted ∧ s'.consumed = s.accepted := by
  have htriggered := h.serving hserving
  have hconsumed := h.consumed
  rw [h.triggered] at htriggered
  obtain ⟨ptr, hptr⟩ := Option.isSome_iff_exists.mp htriggered
  rw [HandoverState.pending, hptr] at hconsumed
  have hstep : (handoverSystem τ ρ).step s .served =
      some
        { ({ s with
            consumed := s.consumed ++ [(ptr, s.submitblockHash)]
            submitblockPtr := none } : HandoverState τ ρ).wakeThreads with
          submitBlockTriggered := false
          submitThread := .awake } := by
    simp only [handoverSystem, HandoverState.step, hserving, hptr]
  exact ⟨_, .single (show HandoverEvent.OfSubmit .served from trivial) hstep, rfl, hconsumed⟩

theorem HandoverState.Attentive.losesNothing {s : HandoverState τ ρ} (h : s.Attentive) :
    s.LosesNothing := by
  have hawake : s.pending ≠ [] → s.submitBlockTriggered = true ∧
      s.submitThread ≠ .asleep := by
    intro hpending
    have htriggered : s.submitBlockTriggered = true := by
      rw [h.triggered]
      rw [HandoverState.pending] at hpending
      cases hptr : s.submitblockPtr with
      | none =>
        rw [hptr] at hpending
        exact absurd rfl hpending
      | some ptr => rfl
    exact ⟨htriggered, h.submit htriggered⟩
  refine ⟨h.consumed, fun hpending => (hawake hpending).2, ?_⟩
  by_cases hpending : s.pending = []
  · have hconsumed := h.consumed
    rw [hpending, List.append_nil] at hconsumed
    exact ⟨s, .start rfl, rfl, hconsumed⟩
  · obtain ⟨htriggered, hnotAsleep⟩ := hawake hpending
    cases hthread : s.submitThread with
    | asleep => exact absurd hthread hnotAsleep
    | serving => exact h.exists_served hthread
    | awake =>
      have hstep : (handoverSystem τ ρ).step s .runSubmit =
          some { s with submitThread := .serving } := by
        simp only [handoverSystem, HandoverState.step, hthread, htriggered, if_pos]
      have hserving : ({ s with submitThread := .serving } : HandoverState τ ρ).Attentive :=
        ⟨h.triggered, fun _ => nofun, fun _ => htriggered, h.threads, h.consumed⟩
      have hfirst : SubmitsTo s { s with submitThread := .serving } :=
        .single (show HandoverEvent.OfSubmit .runSubmit from trivial) hstep
      obtain ⟨s', hto, haccepted, hconsumed⟩ := hserving.exists_served rfl
      exact ⟨s', hfirst.trans hto, haccepted, hconsumed⟩

/-- In every run each accepted hand-over is sent once, and none is slept through. -/
theorem losesNothing_of_reachable {s : HandoverState τ ρ}
    (hrun : (handoverSystem τ ρ).Reachable HandoverState.Fresh s) : s.LosesNothing := by
  have hattentive : s.Attentive :=
    hrun.invariant (fun _ hstart => hstart.attentive) fun _ _ _ h _ hstep => h.step hstep
  exact hattentive.losesNothing

end Runs

/-- Two threads hand a block over each; the second sleeps until the first is sent, and the
    submit thread sleeps before both. -/
theorem exists_losesNothing : ∃ s : HandoverState Bool Nat,
    (handoverSystem Bool Nat).Reachable HandoverState.Fresh s ∧
      s.consumed = [(1, [97]), (2, [98])] ∧ s.LosesNothing := by
  have hstart : HandoverState.Fresh (⟨false, none, [], .awake, fun _ => .idle, [], []⟩ :
      HandoverState Bool Nat) := ⟨rfl, rfl, rfl, fun _ => rfl, rfl, rfl⟩
  obtain ⟨s, hrun, hconsumed⟩ := System.exists_reachedBy_of_replay (handoverSystem Bool Nat)
    hstart (fun _ _ => true)
    [.runSubmit, .trigger false (some 1) [97], .trigger true (some 2) [98],
      .runThread false (some none), .runThread true none, .runSubmit, .served,
      .runThread true none, .runSubmit, .served]
    (fun s => s.consumed = [(1, [97]), (2, [98])]) (fun _ _ _ => trivial) (by decide +kernel)
  exact ⟨s, hrun, of_decide_eq_true hconsumed, losesNothing_of_reachable hrun⟩

end ChirpGateway
