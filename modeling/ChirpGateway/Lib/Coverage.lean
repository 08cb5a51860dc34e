import Mathlib.Algebra.BigOperators.Group.List.Basic
import Mathlib.Algebra.GroupWithZero.Nat
import Mathlib.Order.Interval.Finset.Nat

/-!
# Time covered between successive readings

Readings of a clock, in the order they come in. Some gaps between one reading and
the next count, and the instants in them are covered. As long as no instant is
covered twice, all the gaps together are no longer than the time between the
earliest reading and the latest.
-/

namespace Coverage

variable (counts : Nat → Nat → Bool)

/-- The instants after one reading and up to the next. -/
def gap (first second : Nat) : Finset Nat :=
  if counts first second then Finset.Ioc first second else ∅

/-- The gaps between successive readings. -/
def gaps : List Nat → List (Finset Nat)
  | first :: second :: rest => gap counts first second :: gaps (second :: rest)
  | _ => []

/-- The time between the earliest reading and the latest. -/
def span (times : List Nat) : Nat := times.max?.getD 0 - times.min?.getD 0

theorem card_gap (first second : Nat) :
    (gap counts first second).card = if counts first second then second - first else 0 := by
  unfold gap
  split_ifs
  · exact Nat.card_Ioc first second
  · rfl

/-- A reading after the last one adds the gap between the two. -/
theorem gaps_append (times : List Nat) (first second : Nat) :
    gaps counts (times ++ [first, second]) =
      gaps counts (times ++ [first]) ++ [gap counts first second] := by
  induction times with
  | nil => rfl
  | cons time times ih =>
    cases times with
    | nil => rfl
    | cons next times => exact congrArg (gap counts time next :: ·) ih

theorem gaps_isPrefix {times times' : List Nat} (h : times <+: times') :
    gaps counts times <+: gaps counts times' := by
  obtain ⟨later, rfl⟩ := h
  induction times with
  | nil => exact List.nil_prefix
  | cons first times ih =>
    cases times with
    | nil => exact List.nil_prefix
    | cons second times => exact (List.prefix_cons_inj _).mpr ih

theorem exists_readings_of_mem_gaps {times : List Nat} {instants : Finset Nat}
    (h : instants ∈ gaps counts times) :
    ∃ first ∈ times, ∃ second ∈ times, instants ⊆ Finset.Ioc first second := by
  induction times with
  | nil => cases h
  | cons first times ih =>
    cases times with
    | nil => cases h
    | cons second times =>
      rcases List.mem_cons.mp h with rfl | hrest
      · refine ⟨first, List.mem_cons_self, second,
          List.mem_cons_of_mem _ List.mem_cons_self, ?_⟩
        unfold gap
        split_ifs
        · exact Finset.Subset.refl _
        · exact Finset.empty_subset _
      · obtain ⟨a, ha, b, hb, hsub⟩ := ih hrest
        exact ⟨a, List.mem_cons_of_mem _ ha, b, List.mem_cons_of_mem _ hb, hsub⟩

/-- Every gap lies between the earliest reading and the latest. -/
theorem subset_of_mem_gaps {times : List Nat} {instants : Finset Nat}
    (h : instants ∈ gaps counts times) :
    instants ⊆ Finset.Ioc (times.min?.getD 0) (times.max?.getD 0) := by
  obtain ⟨first, hfirst, second, hsecond, hsub⟩ := exists_readings_of_mem_gaps counts h
  exact hsub.trans (Finset.Ioc_subset_Ioc (List.min?_getD_le_of_mem hfirst)
    (List.le_max?_getD_of_mem hsecond))

theorem sum_card_le_of_disjoint {sets : List (Finset Nat)} {whole : Finset Nat}
    (hdisjoint : sets.Pairwise Disjoint) (hsub : ∀ s ∈ sets, s ⊆ whole) :
    (sets.map Finset.card).sum ≤ whole.card := by
  induction sets generalizing whole with
  | nil => exact Nat.zero_le _
  | cons s sets ih =>
    obtain ⟨hfirst, hrest⟩ := List.pairwise_cons.mp hdisjoint
    have hwhole : s ⊆ whole := hsub s List.mem_cons_self
    -- what is left of the whole has room for the others
    have hle : (sets.map Finset.card).sum ≤ (whole \ s).card := by
      apply ih hrest
      intro t ht
      rw [Finset.subset_sdiff]
      exact ⟨hsub t (List.mem_cons_of_mem _ ht), (hfirst t ht).symm⟩
    rw [Finset.card_sdiff_of_subset hwhole] at hle
    have hcard := Finset.card_le_card hwhole
    rw [List.map_cons, List.sum_cons]
    omega

/-- Where no instant is covered twice, the gaps fit between the earliest reading
    and the latest. -/
theorem sum_card_gaps_le {times : List Nat} (h : (gaps counts times).Pairwise Disjoint) :
    ((gaps counts times).map Finset.card).sum ≤ span times := by
  rw [span, ← Nat.card_Ioc]
  exact sum_card_le_of_disjoint h fun _ => subset_of_mem_gaps counts

/-- Readings that never go back cover no instant twice. -/
theorem disjoint_gaps_of_sorted {times : List Nat} (h : times.Pairwise (· ≤ ·)) :
    (gaps counts times).Pairwise Disjoint := by
  induction times with
  | nil => exact .nil
  | cons first times ih =>
    obtain ⟨-, hrest⟩ := List.pairwise_cons.mp h
    cases times with
    | nil => exact .nil
    | cons second times =>
      refine List.pairwise_cons.mpr ⟨?_, ih hrest⟩
      intro instants hinstants
      obtain ⟨a, ha, b, -, hsub⟩ := exists_readings_of_mem_gaps counts hinstants
      have hle : second ≤ a := by
        rcases List.mem_cons.mp ha with rfl | hlater
        · exact le_rfl
        · exact (List.pairwise_cons.mp hrest).1 a hlater
      rw [Finset.disjoint_left]
      intro instant hmem hother
      have hlate := (Finset.mem_Ioc.mp (hsub hother)).1
      unfold gap at hmem
      split_ifs at hmem
      · have hearly := (Finset.mem_Ioc.mp hmem).2
        omega
      · cases hmem

end Coverage
