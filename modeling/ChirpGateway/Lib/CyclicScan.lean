import Mathlib.Tactic.SplitIfs

/-!
# Scans around a table

A scan goes from a place to the next, around the end of the table, up to the first place that
is free or to the one where it stops.
-/

namespace CyclicScan

/-- The place behind, around the end. -/
def next (n place : Nat) : Nat := if place + 1 ≥ n then 0 else place + 1

/-- The turns from a place to the stop. -/
def toStop (n stop place : Nat) : Nat :=
  if place ≤ stop then stop - place else stop + n - place

/-- Where the scan ends, if it does in so many turns. -/
def scan (free : Nat → Prop) [DecidablePred free] (n stop : Nat) : (fuel place : Nat) →
    Option Nat
  | 0, _ => none
  | fuel + 1, place =>
    if place = stop then some place
    else if free place then some place
    else scan free n stop fuel (next n place)

section

variable {n stop place : Nat}

theorem next_of_lt (hplace : place < n) :
    (if place + 1 = n then 0 else place + 1) = next n place := by
  unfold next
  split_ifs <;> omega

theorem next_lt (hn : 0 < n) : next n place < n := by
  unfold next
  split_ifs <;> omega

theorem toStop_next_stop (hstop : stop < n) : toStop n stop (next n stop) = n - 1 := by
  unfold toStop next
  split_ifs <;> omega

theorem toStop_lt (hplace : place < n) (hstop : stop < n) : toStop n stop place < n := by
  unfold toStop
  split_ifs <;> omega

theorem toStop_next (hplace : place < n) (hstop : stop < n) (hne : place ≠ stop) :
    toStop n stop (next n place) + 1 = toStop n stop place := by
  unfold toStop next
  split_ifs <;> omega

theorem toStop_inj (hplace : place < n) {other : Nat} (hother : other < n)
    (h : toStop n stop other = toStop n stop place) : other = place := by
  unfold toStop at h
  split_ifs at h <;> omega

/-- With turns enough the scan ends at a free place, or at the stop where no other place is
    free. Those it went past are not. -/
theorem scan_eq_some {free : Nat → Prop} [DecidablePred free] {fuel : Nat} (hplace : place < n)
    (hstop : stop < n) (hfuel : toStop n stop place < fuel)
    (hpast : ∀ other < n, toStop n stop place < toStop n stop other → ¬ free other) :
    ∃ found < n, scan free n stop fuel place = some found ∧ (found ≠ stop → free found) ∧
      ∀ other < n, toStop n stop found < toStop n stop other → ¬ free other := by
  induction fuel generalizing place with
  | zero => exact absurd hfuel (Nat.not_lt_zero _)
  | succ fuel ih =>
    rw [scan]
    by_cases hend : place = stop
    · rw [if_pos hend]
      exact ⟨place, hplace, rfl, fun hne => absurd hend hne, hpast⟩
    · rw [if_neg hend]
      by_cases hfree : free place
      · rw [if_pos hfree]
        exact ⟨place, hplace, rfl, fun _ => hfree, hpast⟩
      · rw [if_neg hfree]
        have hturn := toStop_next hplace hstop hend
        refine ih (next_lt (Nat.zero_lt_of_lt hplace)) (by omega) fun other hother hfar => ?_
        rcases Nat.lt_or_eq_of_le (show toStop n stop place ≤ toStop n stop other by omega) with
          hfar | hsame
        · exact hpast other hother hfar
        · rwa [toStop_inj hplace hother hsame.symm]

/-- A scan from behind its stop goes around the whole table. -/
theorem scan_around (free : Nat → Prop) [DecidablePred free] {fuel : Nat} (hstop : stop < n)
    (hfuel : n ≤ fuel) :
    ∃ found < n, scan free n stop fuel (next n stop) = some found ∧
      (found ≠ stop → free found) ∧
      ∀ other < n, toStop n stop found < toStop n stop other → ¬ free other := by
  have hn : 0 < n := Nat.zero_lt_of_lt hstop
  have hturns := toStop_next_stop hstop
  refine scan_eq_some (next_lt hn) hstop (by omega) fun other hother hfar => ?_
  have hall := toStop_lt hother hstop
  omega

theorem toStop_pos (hplace : place < n) (hne : place ≠ stop) :
    toStop n stop stop < toStop n stop place := by
  unfold toStop
  split_ifs <;> omega

/-! ## As a search through a list -/

/-- The places behind the stop, around the end, but for the stop. -/
def around (n stop : Nat) : List Nat := (List.range (n - 1)).map fun turn => (stop + 1 + turn) % n

theorem next_mod (hn : 0 < n) : next n (place % n) = (place + 1) % n := by
  have hlt := Nat.mod_lt place hn
  rw [← Nat.mod_add_mod, next]
  split_ifs with hend
  · rw [show place % n + 1 = n by omega, Nat.mod_self]
  · rw [Nat.mod_eq_of_lt (Nat.lt_of_not_le hend)]

theorem around_ne_stop {turn : Nat} (hstop : stop < n) (hturn : turn < n - 1) :
    (stop + 1 + turn) % n ≠ stop := by
  by_cases hend : stop + 1 + turn < n
  · rw [Nat.mod_eq_of_lt hend]
    omega
  · rw [Nat.mod_eq_sub_mod (Nat.le_of_not_lt hend), Nat.mod_eq_of_lt (by omega)]
    omega

theorem ne_stop_of_mem_around (hstop : stop < n) (h : place ∈ around n stop) :
    place ≠ stop := by
  obtain ⟨turn, hturn, rfl⟩ := List.mem_map.mp h
  exact around_ne_stop hstop (List.mem_range.mp hturn)

/-- So many turns before the stop the scan is a search through the places that are left. -/
theorem scan_turns (free : Nat → Prop) [DecidablePred free] {fuel turn left : Nat}
    (hstop : stop < n)
    (hleft : turn + left = n - 1) (hfuel : left < fuel) :
    scan free n stop fuel ((stop + 1 + turn) % n) =
      some ((((List.range' turn left).map fun turn => (stop + 1 + turn) % n).find?
        (free ·)).getD stop) := by
  have hn : 0 < n := Nat.zero_lt_of_lt hstop
  induction left generalizing turn fuel with
  | zero =>
    obtain ⟨fuel, rfl⟩ := Nat.exists_eq_add_of_lt hfuel
    have hend : (stop + 1 + turn) % n = stop := by
      rw [show stop + 1 + turn = stop + n by omega, Nat.add_mod_right, Nat.mod_eq_of_lt hstop]
    rw [hend, scan, if_pos rfl]
    rfl
  | succ left ih =>
    obtain ⟨fuel, rfl⟩ := Nat.exists_eq_succ_of_ne_zero (Nat.ne_of_gt (Nat.zero_lt_of_lt hfuel))
    rw [scan, if_neg (around_ne_stop hstop (by omega)), List.range'_succ, List.map_cons]
    by_cases hfree : free ((stop + 1 + turn) % n)
    · rw [if_pos hfree, List.find?_cons_of_pos (by simpa using hfree)]
      rfl
    · rw [if_neg hfree, List.find?_cons_of_neg (by simpa using hfree), next_mod hn]
      show scan free n stop fuel ((stop + 1 + (turn + 1)) % n) = _
      exact ih (by omega) (Nat.lt_of_succ_lt_succ hfuel)

theorem scan_next_eq (free : Nat → Prop) [DecidablePred free] {fuel : Nat} (hstop : stop < n)
    (hfuel : n ≤ fuel) :
    scan free n stop fuel (next n stop) = some (((around n stop).find? (free ·)).getD stop) := by
  have hfirst : next n stop = (stop + 1 + 0) % n := by
    rw [Nat.add_zero, ← next_mod (Nat.zero_lt_of_lt hstop), Nat.mod_eq_of_lt hstop]
  rw [hfirst, scan_turns free hstop (Nat.zero_add _) (by omega), around, List.range_eq_range']

end

end CyclicScan
