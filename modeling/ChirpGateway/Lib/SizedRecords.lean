import ChirpGateway.Lib.Wire
import ChirpGateway.Lib.Writes

/-!
# Records packed one behind the other

A byte memory with little-endian fields, and a chain of records that is walked from each one
to the next until there is none.
-/

namespace SizedRecords

/-! ## Fields -/

/-- The number in a field. -/
def readLe (mem : Nat → UInt8) (place size : Nat) : Nat :=
  Wire.leValue (Writes.read mem place size)

theorem readLe_of_holds {mem : Nat → UInt8} {place size n : Nat}
    (h : Writes.Holds mem ⟨place, Wire.leBytes size n⟩) (hn : n < 256 ^ size) :
    readLe mem place size = n := by
  have hread := h.read
  rw [Wire.length_leBytes] at hread
  rw [readLe, hread, Wire.leValue_leBytes_of_lt hn]

/-! ## Walking -/

variable {next : Nat → Option Nat}

/-- The records a walk visits before it ends. -/
inductive Visits (next : Nat → Option Nat) : Option Nat → List Nat → Prop
  | done : Visits next none []
  | step {place : Nat} {places : List Nat} (rest : Visits next (next place) places) :
      Visits next (some place) (place :: places)

/-- A record, unless its size says that it is the end. -/
def unlessEmpty (size : Nat → Nat) (place : Nat) : Option Nat :=
  if size place ≠ 0 then some place else none

/-- A walk that visits anything visits its first record. -/
theorem unlessEmpty_eq_of_visits {size : Nat → Nat} {first : Nat} {places : List Nat}
    (h : Visits next (unlessEmpty size first) places) (hplaces : places ≠ []) :
    unlessEmpty size first = some first := by
  unfold unlessEmpty at h ⊢
  by_cases hsize : size first ≠ 0
  · exact if_pos hsize
  · rw [if_neg hsize] at h
    cases h
    exact absurd rfl hplaces

/-- The first record on the walk that is accepted. -/
def search (next : Nat → Option Nat) (accept : Nat → Bool) : Nat → Option Nat →
    Option (Option Nat)
  | _, none => some none
  | 0, some _ => none
  | fuel + 1, some place =>
    if accept place then some (some place) else search next accept fuel (next place)

/-- A search is over after as many turns as there are records. -/
theorem search_of_visits {start : Option Nat} {places : List Nat} (h : Visits next start places)
    (accept : Nat → Bool) {fuel : Nat} (hfuel : places.length ≤ fuel) :
    search next accept fuel start = some (places.find? accept) := by
  induction h generalizing fuel with
  | done => cases fuel <;> rfl
  | @step place places rest ih =>
    rcases fuel with _ | fuel
    · simp at hfuel
    · rw [search, List.find?_cons]
      cases haccept : accept place with
      | true => rfl
      | false => exact ih (Nat.le_of_succ_le_succ hfuel)

end SizedRecords
