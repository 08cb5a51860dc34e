import Mathlib.Algebra.BigOperators.Group.List.Basic
import Mathlib.Algebra.Order.BigOperators.Group.List
import Mathlib.Order.Interval.Finset.Nat
import Mathlib.Order.Monotone.Defs
import Mathlib.Tactic.SplitIfs

/-!
# Picking by running sums

Weighted keys and a number: the pick is the first key whose running sum has a bound above
the number. With a monotone bound each key is picked on an interval, from the bound before
it to the bound after it.
-/

namespace Thresholds

variable {K S : Type*} [AddCommMonoid S]

/-- The first key whose running sum has a bound above the number. -/
def pick (bound : S → Nat) : List (K × S) → S → Nat → Option K
  | [], _, _ => none
  | (key, weight) :: rest, sum, r =>
    if r < bound (sum + weight) then some key else pick bound rest (sum + weight) r

/-- The sum of the weights. -/
def total (entries : List (K × S)) : S := (entries.map Prod.snd).sum

@[simp] theorem total_nil : total ([] : List (K × S)) = 0 := rfl

@[simp] theorem total_cons (entry : K × S) (entries : List (K × S)) :
    total (entry :: entries) = entry.2 + total entries := by
  simp [total]

theorem mem_of_pick {bound : S → Nat} {entries : List (K × S)} {sum : S} {r : Nat} {key : K}
    (h : pick bound entries sum r = some key) : key ∈ entries.map Prod.fst := by
  induction entries generalizing sum with
  | nil => cases h
  | cons entry rest ih =>
    obtain ⟨first, weight⟩ := entry
    rw [pick] at h
    split_ifs at h with hbelow
    · cases h
      exact List.mem_cons_self
    · exact List.mem_cons_of_mem _ (ih h)

variable [PartialOrder S] [IsOrderedAddMonoid S]

theorem total_nonneg {entries : List (K × S)} (h : ∀ entry ∈ entries, 0 ≤ entry.2) :
    0 ≤ total entries :=
  List.sum_nonneg (by simpa using fun weight key hmem => h (key, weight) hmem)

/-- A key is picked between the bound of what is before it and the bound with it. -/
theorem pick_eq_some_iff {bound : S → Nat} (hbound : Monotone bound)
    {before after : List (K × S)} {key : K} {weight sum : S} {r : Nat}
    (hbefore : key ∉ before.map Prod.fst) (hafter : key ∉ after.map Prod.fst)
    (hnonneg : ∀ entry ∈ before, 0 ≤ entry.2) (hsum : bound sum ≤ r) :
    pick bound (before ++ (key, weight) :: after) sum r = some key ↔
      bound (sum + total before) ≤ r ∧ r < bound (sum + total before + weight) := by
  induction before generalizing sum with
  | nil =>
    rw [List.nil_append, pick, total_nil, add_zero]
    split_ifs with hbelow
    · exact ⟨fun _ => ⟨hsum, hbelow⟩, fun _ => rfl⟩
    · exact ⟨fun h => absurd (mem_of_pick h) hafter, fun h => absurd h.2 hbelow⟩
  | cons entry before ih =>
    obtain ⟨first, step⟩ := entry
    obtain ⟨hstep, hnonneg⟩ := List.forall_mem_cons.mp hnonneg
    rw [List.map_cons, List.mem_cons, not_or] at hbefore
    rw [List.cons_append, pick, total_cons, ← add_assoc]
    split_ifs with hbelow
    · have hpast : bound (sum + step) ≤ bound (sum + step + total before) :=
        hbound (le_add_of_nonneg_right (total_nonneg hnonneg))
      constructor
      · intro h
        exact absurd (Option.some.inj h).symm hbefore.1
      · rintro ⟨hlow, -⟩
        exact absurd hbelow (Nat.not_lt.mpr (hpast.trans hlow))
    · exact ih hbefore.2 hnonneg (Nat.not_lt.mp hbelow)

/-- How many numbers a key is picked for. -/
theorem card_pick [DecidableEq K] {bound : S → Nat} (hbound : Monotone bound) {n : Nat}
    (hn : ∀ sum, bound sum ≤ n) {before after : List (K × S)} {key : K} {weight sum : S}
    (hbefore : key ∉ before.map Prod.fst) (hafter : key ∉ after.map Prod.fst)
    (hnonneg : ∀ entry ∈ before, 0 ≤ entry.2) (hsum : bound sum = 0) :
    ((Finset.range n).filter fun r =>
        pick bound (before ++ (key, weight) :: after) sum r = some key).card =
      bound (sum + total before + weight) - bound (sum + total before) := by
  have hinterval : ((Finset.range n).filter fun r =>
      pick bound (before ++ (key, weight) :: after) sum r = some key) =
      Finset.Ico (bound (sum + total before)) (bound (sum + total before + weight)) := by
    ext r
    have hlimit := hn (sum + total before + weight)
    rw [Finset.mem_filter, Finset.mem_range, Finset.mem_Ico,
      pick_eq_some_iff hbound hbefore hafter hnonneg (by omega)]
    omega
  rw [hinterval, Nat.card_Ico]

end Thresholds
