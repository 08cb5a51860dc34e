import Mathlib.Algebra.Group.Hom.Basic
import Mathlib.Algebra.Group.Hom.End
import Mathlib.Tactic.Abel

/-!
# Checksums that are linear

A checksum takes in symbols one after another: a step that respects addition, then the symbol
is added. The checksums of two texts then differ by what their difference leaves, and symbols
at the end can be chosen so that any target is met.
-/

namespace LinearChecksum

universe u

variable {G : Type u} [AddCommGroup G] (step : G →+ G)

/-- The symbols are taken in one after another. -/
def run (start : G) (symbols : List G) : G :=
  symbols.foldl (fun sum symbol => step sum + symbol) start

variable {step}

@[simp] theorem run_nil (start : G) : run step start [] = start := rfl

@[simp] theorem run_cons (start symbol : G) (symbols : List G) :
    run step start (symbol :: symbols) = run step (step start + symbol) symbols := rfl

theorem run_append (start : G) (front back : List G) :
    run step start (front ++ back) = run step (run step start front) back :=
  List.foldl_append

/-- What was summed before is carried through the steps. -/
theorem run_eq (start : G) (symbols : List G) :
    run step start symbols = step^[symbols.length] start + run step 0 symbols := by
  induction symbols generalizing start with
  | nil => simp
  | cons symbol symbols ih =>
    rw [run_cons, run_cons, ih (step start + symbol), ih (step 0 + symbol), map_zero, zero_add,
      List.length_cons, Function.iterate_succ_apply, iterate_map_add]
    abel

/-- Another symbol changes the sum by the difference, carried through the steps behind it. -/
theorem run_substituted (step : G →+ G) (start symbol other : G) (front back : List G) :
    run step start (front ++ symbol :: back) - run step start (front ++ other :: back) =
      step^[back.length] (symbol - other) := by
  rw [run_append, run_append, run_cons, run_cons, run_eq, run_eq (step _ + other), iterate_map_sub,
    iterate_map_add, iterate_map_add]
  abel

/-- Symbols at the end meet a target if they make up for what the others leave. -/
theorem run_append_eq_iff (step : G →+ G) (start target : G) (front tail : List G) :
    run step start (front ++ tail) = target ↔
      run step 0 tail = target - step^[tail.length] (run step start front) := by
  rw [run_append, run_eq, add_comm, eq_sub_iff_add_eq]

/-- Whether the first iterates of a start all avoid what is bad. -/
def orbitAvoids {α : Type u} (next : α → α) (bad : α → Bool) : (steps : Nat) → α → Bool
  | 0, _ => true
  | steps + 1, a => !bad a && orbitAvoids next bad steps (next a)

theorem not_bad_of_orbitAvoids {α : Type u} {next : α → α} {bad : α → Bool} {steps k : Nat}
    {a : α}
    (h : orbitAvoids next bad steps a = true) (hk : k < steps) : bad (next^[k] a) = false := by
  induction steps generalizing k a with
  | zero => exact absurd hk (Nat.not_lt_zero k)
  | succ steps ih =>
    simp only [orbitAvoids, Bool.and_eq_true, Bool.not_eq_true'] at h
    cases k with
    | zero => exact h.1
    | succ k =>
      rw [Function.iterate_succ_apply]
      exact ih h.2 (Nat.lt_of_succ_lt_succ hk)

/-! ## Words under exclusive or -/

/-- A word of 32 bits, to be added without carries. -/
def XorWord : Type := UInt32

namespace XorWord

instance : Add XorWord := ⟨fun (a b : UInt32) => a ^^^ b⟩

instance : Zero XorWord := ⟨(0 : UInt32)⟩

instance : Neg XorWord := ⟨fun a => a⟩

instance : AddCommGroup XorWord where
  add_assoc := UInt32.xor_assoc
  zero_add _ := UInt32.zero_xor
  add_zero _ := UInt32.xor_zero
  add_comm := UInt32.xor_comm
  neg_add_cancel _ := UInt32.xor_self
  nsmul := nsmulRec
  zsmul := zsmulRec

theorem sub_eq (a b : XorWord) : a - b = b + a := by
  rw [sub_eq_add_neg, add_comm]
  rfl

/-- A number as a word. -/
def ofNat (n : Nat) : XorWord := UInt32.ofNat n

end XorWord

end LinearChecksum
