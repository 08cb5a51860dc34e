/-!
# Histories

What happened, the last event first. A condition on an event and on what was before it is
established when the event is added, and holds of the whole history from then on.
-/

namespace History

universe u

variable {α : Type u} {cond : α → List α → Prop}

/-- Every event met the condition on it and on the history before it. -/
inductive Always (cond : α → List α → Prop) : List α → Prop where
  | nil : Always cond []
  | cons {event : α} {before : List α} : cond event before → Always cond before →
      Always cond (event :: before)

namespace Always

theorem of_cons {event : α} {before : List α} (h : Always cond (event :: before)) :
    cond event before ∧ Always cond before := by
  cases h with
  | cons hcond hbefore => exact ⟨hcond, hbefore⟩

/-- The condition held at each event, on the history it was added to. -/
theorem at_event {later before : List α} {event : α}
    (h : Always cond (later ++ event :: before)) : cond event before := by
  induction later with
  | nil => exact h.of_cons.1
  | cons newer later ih => exact ih h.of_cons.2

theorem of_mem {events : List α} {event : α} (h : Always cond events) (hmem : event ∈ events) :
    ∃ later before, events = later ++ event :: before ∧ cond event before := by
  obtain ⟨later, before, rfl⟩ := List.append_of_mem hmem
  exact ⟨later, before, rfl, h.at_event⟩

/-- A condition that relates an event to each one before it relates them all. -/
theorem pairwise {rel : α → α → Prop} {events : List α} (h : Always cond events)
    (hrel : ∀ event before, cond event before → ∀ old ∈ before, rel event old) :
    events.Pairwise rel := by
  induction h with
  | nil => exact List.Pairwise.nil
  | cons hcond _ ih => exact List.Pairwise.cons (hrel _ _ hcond) ih

end Always

end History
