import Mathlib.Data.List.Nodup
import Mathlib.Logic.Function.Basic

/-!
# Reading into slots

A record as a function on its slots, filled one slot after another by a reader that may fail.
Where no slot is filled twice, what is in a slot at the end is what was read for it, and
nothing that was read for another.
-/

namespace ChirpGateway.Slots

variable {P ε : Type} [DecidableEq P] {V : P → Type}

/-- The slots are filled in turn; the reader sees what was in the slot before. -/
def readAll (value : (p : P) → V p → Except ε (V p)) :
    List P → ((p : P) → V p) → Except ε ((p : P) → V p)
  | [], s => .ok s
  | p :: ps, s =>
    match value p (s p) with
    | .error e => .error e
    | .ok v => readAll value ps (Function.update s p v)

variable {value : (p : P) → V p → Except ε (V p)}

/-- All is read if each slot's own value is, and the other slots are left. -/
theorem readAll_eq_ok_iff {ps : List P} {s s' : (p : P) → V p} (hnodup : ps.Nodup) :
    readAll value ps s = .ok s' ↔
      (∀ p ∈ ps, value p (s p) = .ok (s' p)) ∧ ∀ p, p ∉ ps → s' p = s p := by
  induction ps generalizing s with
  | nil =>
    simp only [readAll, Except.ok.injEq, List.not_mem_nil, false_implies, implies_true, true_and,
      not_false_eq_true, true_implies]
    exact ⟨fun h p => by rw [h], fun h => funext fun p => (h p).symm⟩
  | cons p ps ih =>
    obtain ⟨hp, hrest⟩ := List.nodup_cons.mp hnodup
    have hother {q : P} {v : V p} (hq : q ≠ p) : Function.update s p v q = s q :=
      Function.update_of_ne hq v s
    rw [readAll]
    cases hread : value p (s p) with
    | error e =>
      simp only [reduceCtorEq, List.mem_cons, false_iff, not_and]
      intro h
      have hok := h p (.inl rfl)
      rw [hread] at hok
      cases hok
    | ok v =>
      simp only
      rw [ih hrest]
      constructor
      · rintro ⟨hin, hout⟩
        have hv : s' p = v := (hout p hp).trans (Function.update_self p v s)
        refine ⟨fun q hq => ?_, fun q hq => ?_⟩
        · rcases List.mem_cons.mp hq with rfl | hq
          · rw [hread, hv]
          · rw [← hin q hq, hother fun h => hp (h ▸ hq)]
        · rw [List.mem_cons, not_or] at hq
          rw [hout q hq.2, hother hq.1]
      · rintro ⟨hin, hout⟩
        have hv : v = s' p := by
          have hok := hin p List.mem_cons_self
          rw [hread] at hok
          exact Except.ok.inj hok
        refine ⟨fun q hq => ?_, fun q hq => ?_⟩
        · rw [hother fun h => hp (h ▸ hq)]
          exact hin q (List.mem_cons_of_mem _ hq)
        · by_cases heq : q = p
          · subst heq
            rw [Function.update_self, hv]
          · rw [hother heq]
            exact hout q fun h => (List.mem_cons.mp h).elim heq hq

end ChirpGateway.Slots
