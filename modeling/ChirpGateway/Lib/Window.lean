import Mathlib.Data.List.Basic
import Mathlib.Order.MinMax

/-!
# Logs read through a moving window

A log is a list of stamped entries, and a reader at a cutoff sees the entries
stamped from there on. A log that is pruned whenever it is read still serves
every later reader, as long as no reader goes back behind an earlier one.
-/

namespace Window

universe u v

variable {α : Type u} {T : Type v} [LinearOrder T] (stamp : α → T)

/-- The entries stamped at the cutoff or later. -/
def since (cutoff : T) (log : List α) : List α :=
  log.filter fun entry => cutoff ≤ stamp entry

theorem since_append (cutoff : T) (log log' : List α) :
    since stamp cutoff (log ++ log') = since stamp cutoff log ++ since stamp cutoff log' :=
  List.filter_append ..

/-- Reading what a reader at an earlier cutoff kept. -/
theorem since_since {early late : T} (hle : early ≤ late) (log : List α) :
    since stamp late (since stamp early log) = since stamp late log := by
  simp only [since, List.filter_filter]
  apply List.filter_congr
  intro entry _
  by_cases hlate : late ≤ stamp entry
  · simp [hlate, hle.trans hlate]
  · simp [hlate]

/-- No reader at this cutoff or a later one can tell the two logs apart. -/
def AgreeFrom (cutoff : T) (kept full : List α) : Prop :=
  ∀ later, cutoff ≤ later → since stamp later kept = since stamp later full

namespace AgreeFrom

variable {stamp} {cutoff : T} {kept full : List α}

theorem refl (cutoff : T) (log : List α) : AgreeFrom stamp cutoff log log :=
  fun _ _ => rfl

theorem mono {late : T} (hagree : AgreeFrom stamp cutoff kept full) (hle : cutoff ≤ late) :
    AgreeFrom stamp late kept full :=
  fun later hlater => hagree later (hle.trans hlater)

/-- Both logs grow by the same entries. -/
theorem append (hagree : AgreeFrom stamp cutoff kept full) (entries : List α) :
    AgreeFrom stamp cutoff (kept ++ entries) (full ++ entries) := by
  intro later hlater
  rw [since_append, since_append, hagree later hlater]

/-- Pruning one of the logs moves the cutoff along. -/
theorem prune_left {late : T} (hagree : AgreeFrom stamp cutoff kept full) (hle : cutoff ≤ late) :
    AgreeFrom stamp late (since stamp late kept) full := by
  intro later hlater
  rw [since_since stamp hlater]
  exact hagree later (hle.trans hlater)

/-- Pruning both logs alike keeps the cutoff. -/
theorem prune_both {late : T} (hagree : AgreeFrom stamp cutoff kept full) (hle : cutoff ≤ late) :
    AgreeFrom stamp cutoff (since stamp late kept) (since stamp late full) := by
  intro later _
  rw [hagree late hle]

end AgreeFrom

end Window
