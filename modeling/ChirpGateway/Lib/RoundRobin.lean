import Mathlib.Data.Nat.ModEq

/-!
# Taking turns

A schedule that serves place `(start + turn) % n` at every turn serves each of the
`n` places once in any `n` turns in a row.
-/

namespace RoundRobin

/-- Two of `n` turns in a row do not serve the same place. -/
theorem eq_of_mod_eq {n first turn other : Nat} (hturn : turn < n) (hother : other < n)
    (hsame : (first + turn) % n = (first + other) % n) : turn = other := by
  have hmod : first + turn ≡ first + other [MOD n] := hsame
  exact (Nat.ModEq.add_left_cancel' first hmod).eq_of_lt_of_lt hturn hother

/-- Of `n` turns in a row, one serves a given place. -/
theorem exists_mod_eq {n : Nat} (first : Nat) {place : Nat} (hplace : place < n) :
    ∃ turn < n, (first + turn) % n = place := by
  have hn : 0 < n := Nat.zero_lt_of_lt hplace
  have hfirst : first % n < n := Nat.mod_lt first hn
  have hround : first % n + (place + (n - first % n)) = place + n := by omega
  refine ⟨(place + (n - first % n)) % n, Nat.mod_lt _ hn, ?_⟩
  rw [Nat.add_mod_mod, ← Nat.mod_add_mod, hround, Nat.add_mod_right, Nat.mod_eq_of_lt hplace]

theorem existsUnique_mod_eq {n : Nat} (first : Nat) {place : Nat} (hplace : place < n) :
    ∃! turn, turn < n ∧ (first + turn) % n = place := by
  obtain ⟨turn, hturn, hserved⟩ := exists_mod_eq first hplace
  refine ⟨turn, ⟨hturn, hserved⟩, ?_⟩
  rintro other ⟨hother, hsame⟩
  exact eq_of_mod_eq hother hturn (hsame.trans hserved.symm)

end RoundRobin
