/-!
# Guarded transition systems

A system is an executable step function: `step s a` is the next state when
event `a` can happen in `s`, and `none` when it cannot. A run is described by
the states it reaches; a condition on its steps restricts which runs are meant,
so that a property can be proved of every run that stays inside it.
-/

namespace Transition

universe u v

/-- A step function with its enabling condition built in. -/
structure System (σ : Type u) (α : Type v) where
  step : σ → α → Option σ

namespace System

variable {σ : Type u} {α : Type v} (sys : System σ α)

/-- The states reached from `start` by steps that all satisfy `cond`. -/
inductive ReachedBy (cond : σ → α → Prop) (start : σ → Prop) : σ → Prop where
  | start {s : σ} : start s → ReachedBy cond start s
  | step {s s' : σ} {a : α} : ReachedBy cond start s → cond s a → sys.step s a = some s' →
      ReachedBy cond start s'

/-- The states any run reaches. -/
abbrev Reachable (start : σ → Prop) : σ → Prop :=
  sys.ReachedBy (fun _ _ => True) start

variable {sys}

/-- What holds at the start and is kept by every step that meets the condition
    holds wherever such a run gets. -/
theorem ReachedBy.invariant {cond : σ → α → Prop} {start : σ → Prop} {inv : σ → Prop}
    (hstart : ∀ s, start s → inv s)
    (hstep : ∀ s a s', inv s → cond s a → sys.step s a = some s' → inv s')
    {s : σ} (hrun : sys.ReachedBy cond start s) : inv s := by
  induction hrun with
  | start h => exact hstart _ h
  | step _ hcond hnext ih => exact hstep _ _ _ ih hcond hnext

theorem ReachedBy.trans {cond : σ → α → Prop} {start : σ → Prop} {mid s : σ}
    (hmid : sys.ReachedBy cond start mid) (hrun : sys.ReachedBy cond (· = mid) s) :
    sys.ReachedBy cond start s := by
  induction hrun with
  | start h => exact h ▸ hmid
  | step _ hcond hnext ih => exact ih.step hcond hnext

theorem ReachedBy.single {cond : σ → α → Prop} {s s' : σ} {a : α} (hcond : cond s a)
    (hnext : sys.step s a = some s') : sys.ReachedBy cond (· = s) s' :=
  .step (.start rfl) hcond hnext

variable (sys)

/-- Replays a list of events, checking the condition before each. -/
def replay (cond : σ → α → Bool) : σ → List α → Option σ
  | s, [] => some s
  | s, a :: rest =>
    if cond s a then
      match sys.step s a with
      | some s' => replay cond s' rest
      | none => none
    else
      none

variable {sys}

/-- The end of a replay is reached by a run that meets the condition. -/
theorem replay_reachedBy {cond : σ → α → Prop} {check : σ → α → Bool}
    {start : σ → Prop}
    (hcheck : ∀ s a, check s a = true → cond s a) {s s' : σ} {events : List α}
    (hs : sys.ReachedBy cond start s) (hreplay : sys.replay check s events = some s') :
    sys.ReachedBy cond start s' := by
  induction events generalizing s with
  | nil =>
    cases hreplay
    exact hs
  | cons a rest ih =>
    simp only [replay] at hreplay
    split at hreplay
    · next hmeets =>
      split at hreplay
      · next mid hstep => exact ih (.step hs (hcheck _ _ hmeets) hstep) hreplay
      · cases hreplay
    · cases hreplay

/-- A replay that ends in a state passing `test` exhibits a reached one. -/
theorem exists_reachedBy_of_replay (sys : System σ α) {cond : σ → α → Prop}
    {start : σ → Prop} {s : σ} (hs : start s) (check : σ → α → Bool) (events : List α)
    (test : σ → Bool) (hcheck : ∀ s a, check s a = true → cond s a)
    (hreplay : (sys.replay check s events).any test = true) :
    ∃ s', sys.ReachedBy cond start s' ∧ test s' = true := by
  rw [Option.any_eq_true] at hreplay
  obtain ⟨s', hend, htest⟩ := hreplay
  exact ⟨s', replay_reachedBy hcheck (.start hs) hend, htest⟩

end System

end Transition
