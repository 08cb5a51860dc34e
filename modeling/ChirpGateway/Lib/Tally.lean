import Mathlib.Algebra.Order.BigOperators.Group.List
import Mathlib.Algebra.Order.Ring.Nat
import Mathlib.Data.List.Nodup

/-!
# Totals by key

A table that adds up amounts under their keys, and when every entry of a list of
positive amounts can be read back from it: exactly when no key occurs twice.
-/

namespace Tally

variable {κ : Type} [DecidableEq κ]

/-- Adding an amount under its key. -/
def add (totals : κ → Option Nat) (entry : κ × Nat) : κ → Option Nat :=
  fun k => if k = entry.1 then some ((totals k).getD 0 + entry.2) else totals k

/-- The table of a list of entries. -/
def tally (entries : List (κ × Nat)) : κ → Option Nat :=
  entries.foldl add fun _ => none

/-- What a list holds under a key. -/
def amounts (entries : List (κ × Nat)) (k : κ) : List Nat :=
  (entries.filter fun entry => entry.1 = k).map Prod.snd

theorem amounts_cons (entry : κ × Nat) (entries : List (κ × Nat)) (k : κ) :
    amounts (entry :: entries) k =
      if entry.1 = k then entry.2 :: amounts entries k else amounts entries k := by
  by_cases h : entry.1 = k <;> simp [amounts, h]

theorem foldl_add (entries : List (κ × Nat)) (totals : κ → Option Nat) (k : κ) :
    entries.foldl add totals k =
      if amounts entries k = [] then totals k
      else some ((totals k).getD 0 + (amounts entries k).sum) := by
  induction entries generalizing totals with
  | nil => rfl
  | cons entry entries ih =>
    rw [List.foldl_cons, ih, amounts_cons]
    by_cases hkey : entry.1 = k
    · by_cases hnil : amounts entries k = []
      · simp [add, hkey, hnil]
      · simp [add, hkey, hnil, Nat.add_assoc]
    · have hne : k ≠ entry.1 := fun h => hkey h.symm
      simp [add, hkey, hne]

/-- The table holds the sum of what was added under a key. -/
theorem tally_eq (entries : List (κ × Nat)) (k : κ) :
    tally entries k = if amounts entries k = [] then none else some (amounts entries k).sum := by
  rw [tally, foldl_add]
  simp

/-- The order of the entries does not matter. -/
theorem tally_perm {entries entries' : List (κ × Nat)} (h : entries.Perm entries') :
    tally entries = tally entries' := by
  funext k
  have hamounts : (amounts entries k).Perm (amounts entries' k) := (h.filter _).map _
  rw [tally_eq, tally_eq, hamounts.sum_eq]
  simp only [← List.length_eq_zero_iff, hamounts.length_eq]

/-- An amount under a key that occurs once is read back. -/
theorem tally_of_mem {entries : List (κ × Nat)} (hnodup : (entries.map Prod.fst).Nodup)
    {entry : κ × Nat} (hentry : entry ∈ entries) : tally entries entry.1 = some entry.2 := by
  have hamounts : amounts entries entry.1 = [entry.2] := by
    induction entries with
    | nil => cases hentry
    | cons first entries ih =>
      rw [List.map_cons, List.nodup_cons] at hnodup
      obtain ⟨hfresh, hrest⟩ := hnodup
      rw [amounts_cons]
      rcases List.mem_cons.mp hentry with rfl | hmem
      · have hnone : entries.filter (fun e => decide (e.1 = entry.1)) = [] := by
          rw [List.filter_eq_nil_iff]
          intro e he
          rw [decide_eq_true_eq]
          intro hkey
          exact hfresh (hkey ▸ List.mem_map_of_mem he)
        rw [if_pos rfl, amounts, hnone]
        rfl
      · have hne : first.1 ≠ entry.1 := by
          intro hkey
          exact hfresh (hkey ▸ List.mem_map_of_mem hmem)
        rw [if_neg hne, ih hrest hmem]
  rw [tally_eq, hamounts]
  simp

/-- Positive amounts leave no total at zero. -/
theorem tally_pos {entries : List (κ × Nat)} (hpos : ∀ entry ∈ entries, 0 < entry.2) {k : κ}
    {total : Nat} (h : tally entries k = some total) : 0 < total := by
  rw [tally_eq] at h
  split at h
  · cases h
  · next hne =>
    rw [Option.some.injEq] at h
    obtain ⟨x, hx⟩ := List.exists_mem_of_ne_nil _ hne
    obtain ⟨entry, hentry, rfl⟩ := List.mem_map.mp hx
    have hle := List.single_le_sum (fun z _ => Nat.zero_le z) entry.2 hx
    have hentry := hpos entry (List.mem_of_mem_filter hentry)
    omega

/-- Positive amounts that add up to one of them are only that one. -/
theorem length_eq_one_of_sum {xs : List Nat} (hpos : ∀ x ∈ xs, 0 < x) {x : Nat} (hx : x ∈ xs)
    (hsum : xs.sum = x) : xs.length = 1 := by
  have herase := List.sum_erase hx
  have hzero : (xs.erase x).sum = 0 := by omega
  have hnil : xs.erase x = [] := by
    rw [List.eq_nil_iff_forall_not_mem]
    intro y hy
    have hle := List.single_le_sum (fun z _ => Nat.zero_le z) y hy
    have hy := hpos y (List.mem_of_mem_erase hy)
    omega
  have hlen := List.length_erase_of_mem hx
  have hne := List.length_pos_of_mem hx
  rw [hnil, List.length_nil] at hlen
  omega

theorem length_amounts (entries : List (κ × Nat)) (k : κ) :
    (amounts entries k).length = (entries.map Prod.fst).count k := by
  induction entries with
  | nil => rfl
  | cons entry entries ih =>
    rw [amounts_cons, List.map_cons, List.count_cons]
    by_cases hkey : entry.1 = k
    · simp [hkey, ih]
    · simp [hkey, ih]

/-- With positive amounts, and at most one of them unchecked, every checked
    amount is read back exactly when no key occurs twice. -/
theorem forall_tally_eq_iff {checked rest : List (κ × Nat)}
    (hpos : ∀ entry ∈ checked ++ rest, 0 < entry.2) (hrest : rest.length ≤ 1) :
    (∀ entry ∈ checked, tally (checked ++ rest) entry.1 = some entry.2) ↔
      ((checked ++ rest).map Prod.fst).Nodup := by
  constructor
  · intro h
    rw [List.nodup_iff_count_le_one]
    intro k
    by_cases hk : k ∈ checked.map Prod.fst
    · obtain ⟨entry, hentry, rfl⟩ := List.mem_map.mp hk
      have htally := h entry hentry
      rw [tally_eq] at htally
      split at htally
      · cases htally
      · rw [← length_amounts]
        refine (length_eq_one_of_sum ?_ ?_ (Option.some.inj htally)).le
        · intro x hx
          obtain ⟨e, he, rfl⟩ := List.mem_map.mp hx
          exact hpos e (List.mem_of_mem_filter he)
        · apply List.mem_map_of_mem (f := Prod.snd)
          rw [List.mem_filter]
          exact ⟨List.mem_append_left _ hentry, by simp⟩
    · rw [List.map_append, List.count_append, List.count_eq_zero_of_not_mem hk, Nat.zero_add]
      refine List.count_le_length.trans ?_
      rwa [List.length_map]
  · intro hnodup entry hentry
    exact tally_of_mem hnodup (List.mem_append_left _ hentry)

end Tally
