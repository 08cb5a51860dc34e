import Mathlib.Data.Fintype.Card
import Mathlib.Data.List.Nodup

/-!
# Seats that are taken and left

A fixed set of seats, who sits where, who ever entered, and who left. Everybody who
entered sits on one seat or has left once.
-/

universe u v

/-- Who sits where, and who entered and left, the last one first. -/
structure Occupancy (ι : Type u) (α : Type v) where
  seat : ι → Option α
  entered : List α
  left : List α

namespace Occupancy

variable {ι : Type u} {α : Type v} [DecidableEq ι] (o : Occupancy ι α)

def enter (i : ι) (a : α) : Occupancy ι α where
  seat := Function.update o.seat i (some a)
  entered := a :: o.entered
  left := o.left

def leave (i : ι) : Occupancy ι α where
  seat := Function.update o.seat i none
  entered := o.entered
  left := (o.seat i).toList ++ o.left

/-- How many seats are taken. -/
def taken [Fintype ι] : Nat := (Finset.univ.filter fun i => (o.seat i).isSome).card

/-- Nobody is lost, sits twice or has left twice. -/
structure Accounted : Prop where
  seated_once : ∀ i j a, o.seat i = some a → o.seat j = some a → i = j
  seated_entered : ∀ i a, o.seat i = some a → a ∈ o.entered
  left_nodup : o.left.Nodup
  mem_left_iff : ∀ a, a ∈ o.left ↔ a ∈ o.entered ∧ ∀ i, o.seat i ≠ some a

variable {o}

theorem Accounted.enter (h : o.Accounted) {i : ι} {a : α} (hfree : o.seat i = none)
    (hnew : a ∉ o.entered) : (o.enter i a).Accounted := by
  have hseat : ∀ j b, (o.enter i a).seat j = some b →
      j = i ∧ b = a ∨ o.seat j = some b ∧ b ≠ a := by
    intro j b hj
    by_cases heq : j = i
    · subst heq
      have hself : Function.update o.seat j (some a) j = some b := hj
      rw [Function.update_self] at hself
      exact Or.inl ⟨rfl, (Option.some.inj hself).symm⟩
    · have hother : Function.update o.seat i (some a) j = some b := hj
      rw [Function.update_of_ne heq] at hother
      refine Or.inr ⟨hother, ?_⟩
      rintro rfl
      exact hnew (h.seated_entered j b hother)
  constructor
  · intro j k b hj hk
    rcases hseat j b hj with ⟨hji, hb⟩ | ⟨hj, hb⟩
    · rcases hseat k b hk with ⟨hki, -⟩ | ⟨-, hne⟩
      · rw [hji, hki]
      · exact absurd hb hne
    · rcases hseat k b hk with ⟨-, heq⟩ | ⟨hk, -⟩
      · exact absurd heq hb
      · exact h.seated_once j k b hj hk
  · intro j b hj
    rcases hseat j b hj with ⟨-, hb⟩ | ⟨hold, -⟩
    · rw [hb]
      exact List.mem_cons_self
    · exact List.mem_cons_of_mem _ (h.seated_entered j b hold)
  · exact h.left_nodup
  · intro b
    constructor
    · intro hleft
      obtain ⟨hentered, haway⟩ := (h.mem_left_iff b).mp hleft
      refine ⟨List.mem_cons_of_mem _ hentered, ?_⟩
      intro j hj
      rcases hseat j b hj with ⟨-, hb⟩ | ⟨hold, -⟩
      · exact hnew (hb ▸ hentered)
      · exact haway j hold
    · rintro ⟨hentered, haway⟩
      rcases List.mem_cons.mp hentered with rfl | hold
      · exact absurd (Function.update_self _ _ _) (haway i)
      · refine (h.mem_left_iff b).mpr ⟨hold, ?_⟩
        intro j hj
        have hji : j ≠ i := by
          rintro rfl
          rw [hfree] at hj
          cases hj
        exact haway j ((Function.update_of_ne hji _ _).trans hj)

theorem Accounted.leave (h : o.Accounted) {i : ι} {a : α} (hseated : o.seat i = some a) :
    (o.leave i).Accounted := by
  have hstay : a ∉ o.left := fun hleft => ((h.mem_left_iff a).mp hleft).2 i hseated
  have hleft : (o.leave i).left = a :: o.left := by
    simp [Occupancy.leave, hseated]
  have hseat : ∀ j b, (o.leave i).seat j = some b → j ≠ i ∧ o.seat j = some b := by
    intro j b hj
    have hupdate : Function.update o.seat i none j = some b := hj
    have hji : j ≠ i := by
      rintro rfl
      rw [Function.update_self] at hupdate
      cases hupdate
    rw [Function.update_of_ne hji] at hupdate
    exact ⟨hji, hupdate⟩
  constructor
  · intro j k b hj hk
    exact h.seated_once j k b (hseat j b hj).2 (hseat k b hk).2
  · intro j b hj
    exact h.seated_entered j b (hseat j b hj).2
  · rw [hleft]
    exact List.nodup_cons.mpr ⟨hstay, h.left_nodup⟩
  · intro b
    rw [hleft, List.mem_cons]
    constructor
    · rintro (rfl | hold)
      · refine ⟨h.seated_entered i b hseated, ?_⟩
        intro j hj
        obtain ⟨hji, hold⟩ := hseat j b hj
        exact hji (h.seated_once j i b hold hseated)
      · obtain ⟨hentered, haway⟩ := (h.mem_left_iff b).mp hold
        exact ⟨hentered, fun j hj => haway j (hseat j b hj).2⟩
    · rintro ⟨hentered, haway⟩
      by_cases hb : b = a
      · exact Or.inl hb
      · refine Or.inr ((h.mem_left_iff b).mpr ⟨hentered, ?_⟩)
        intro j hj
        have hji : j ≠ i := by
          rintro rfl
          exact hb (Option.some.inj (hj.symm.trans hseated))
        exact haway j ((Function.update_of_ne hji _ _).trans hj)

/-! ## Counting -/

variable [Fintype ι]

theorem taken_enter {i : ι} (a : α) (hfree : o.seat i = none) :
    (o.enter i a).taken = o.taken + 1 := by
  have hinsert : (Finset.univ.filter fun j => ((o.enter i a).seat j).isSome) =
      insert i (Finset.univ.filter fun j => (o.seat j).isSome) := by
    ext j
    by_cases hji : j = i <;> simp [Occupancy.enter, Function.update_apply, hji]
  unfold taken
  rw [hinsert, Finset.card_insert_of_notMem (by simp [hfree])]

theorem taken_leave {i : ι} {a : α} (hseated : o.seat i = some a) :
    (o.leave i).taken + 1 = o.taken := by
  have herase : (Finset.univ.filter fun j => ((o.leave i).seat j).isSome) =
      (Finset.univ.filter fun j => (o.seat j).isSome).erase i := by
    ext j
    by_cases hji : j = i <;> simp [Occupancy.leave, Function.update_apply, hji]
  unfold taken
  rw [herase]
  exact Finset.card_erase_add_one (by simp [hseated])

end Occupancy
