import Mathlib.Data.List.Pairwise
import Mathlib.Tactic.SplitIfs

/-!
# Writes to places of a memory

A memory gives each place its item, and a write puts some items from a place on. Writes
that stay apart from each other are all there at the end, in whatever order they come.
-/

namespace Writes

universe u

variable {α : Type u}

/-- Some items from a place on. -/
structure Write (α : Type u) where
  place : Nat
  items : List α

namespace Write

/-- The place behind the items. -/
def stop (w : Write α) : Nat := w.place + w.items.length

/-- Two writes that do not touch. -/
def Apart (v w : Write α) : Prop := v.stop ≤ w.place ∨ w.stop ≤ v.place

/-- A write inside a range of places. -/
def Within (low high : Nat) (w : Write α) : Prop := low ≤ w.place ∧ w.stop ≤ high

theorem Apart.symm {v w : Write α} (h : v.Apart w) : w.Apart v := Or.symm h

theorem Within.apart {low mid mid' high : Nat} {v w : Write α} (hv : v.Within low mid)
    (hw : w.Within mid' high) (h : mid ≤ mid') : v.Apart w :=
  Or.inl (Nat.le_trans hv.2 (Nat.le_trans h hw.1))

theorem Within.mono {low low' high high' : Nat} {w : Write α} (h : w.Within low high)
    (hlow : low' ≤ low) (hhigh : high ≤ high') : w.Within low' high' :=
  ⟨Nat.le_trans hlow h.1, Nat.le_trans h.2 hhigh⟩

end Write

/-- The memory after a write. -/
def store (mem : Nat → α) (w : Write α) : Nat → α := fun place =>
  if place < w.place then mem place
  else (w.items[place - w.place]?).getD (mem place)

/-- The memory after some writes. -/
def storeAll (mem : Nat → α) (writes : List (Write α)) : Nat → α :=
  writes.foldl store mem

@[simp] theorem store_singleton (mem : Nat → α) (first : Nat) (item : α) (place : Nat) :
    store mem ⟨first, [item]⟩ place = if place = first then item else mem place := by
  unfold store
  by_cases hplace : place = first
  · simp [hplace]
  · by_cases hbefore : place < first
    · simp [hbefore, hplace]
    · simp [hbefore, hplace, show place - first ≠ 0 by omega]

theorem store_replicate (mem : Nat → α) (count : Nat) (item : α) (place : Nat) :
    store mem ⟨0, List.replicate count item⟩ place =
      if place < count then item else mem place := by
  unfold store
  by_cases hplace : place < count
  · simp [hplace]
  · simp [hplace]

theorem storeAll_append (mem : Nat → α) (writes more : List (Write α)) :
    storeAll mem (writes ++ more) = storeAll (storeAll mem writes) more :=
  List.foldl_append

/-- The items of a write are where it put them. -/
def Holds (mem : Nat → α) (w : Write α) : Prop :=
  ∀ i, (h : i < w.items.length) → mem (w.place + i) = w.items[i]

theorem holds_store (mem : Nat → α) (w : Write α) : Holds (store mem w) w := by
  intro i h
  rw [store, if_neg (Nat.not_lt.mpr (Nat.le_add_right _ _)), Nat.add_sub_cancel_left]
  simp [h]

theorem Holds.store {mem : Nat → α} {v w : Write α} (h : Holds mem v) (hapart : v.Apart w) :
    Holds (store mem w) v := by
  intro i hi
  rw [← h i hi, Writes.store]
  unfold Write.Apart Write.stop at hapart
  split_ifs with hbefore
  · rfl
  · rw [List.getElem?_eq_none (by omega), Option.getD_none]

/-- What is written behind some items is held with them. -/
theorem Holds.store_behind {mem : Nat → α} {place : Nat} {items : List α}
    (h : Holds mem ⟨place, items⟩) (more : List α) :
    Holds (Writes.store mem ⟨place + items.length, more⟩) ⟨place, items ++ more⟩ := by
  have hold := h.store (w := ⟨place + items.length, more⟩) (Or.inl (Nat.le_refl _))
  have hnew := holds_store mem ⟨place + items.length, more⟩
  intro i hi
  by_cases hfront : i < items.length
  · simpa [List.getElem_append_left hfront] using hold i hfront
  · have hbehind : i - items.length < more.length := by
      simp only [List.length_append] at hi
      omega
    have hread := hnew (i - items.length) hbehind
    rw [Nat.add_assoc, Nat.add_sub_cancel' (Nat.le_of_not_lt hfront)] at hread
    simpa [List.getElem_append_right (Nat.le_of_not_lt hfront)] using hread

/-- The first items are written once more. -/
theorem Holds.store_front {mem : Nat → α} {place : Nat} {front items : List α}
    (h : Holds mem ⟨place, front ++ items⟩) {other : List α}
    (hlength : other.length = front.length) :
    Holds (Writes.store mem ⟨place, other⟩) ⟨place, other ++ items⟩ := by
  have hnew := holds_store mem ⟨place, other⟩
  intro i hi
  by_cases hfront : i < other.length
  · simpa [List.getElem_append_left hfront] using hnew i hfront
  · have hbehind := Nat.le_of_not_lt hfront
    simp only [List.length_append, hlength] at hi
    have hold := h i (by simpa using hi)
    rw [Writes.store, if_neg (Nat.not_lt.mpr (Nat.le_add_right _ _)), Nat.add_sub_cancel_left,
      List.getElem?_eq_none hbehind, Option.getD_none]
    simp only [List.getElem_append_right hbehind]
    simp only [List.getElem_append_right (hlength ▸ hbehind)] at hold
    simpa [hlength] using hold

theorem Holds.storeAll {mem : Nat → α} {v : Write α} (h : Holds mem v)
    {writes : List (Write α)}
    (hapart : ∀ w ∈ writes, v.Apart w) : Holds (storeAll mem writes) v := by
  induction writes generalizing mem with
  | nil => exact h
  | cons w writes ih =>
    obtain ⟨hw, hwrites⟩ := List.forall_mem_cons.mp hapart
    exact ih (h.store hw) hwrites

/-- Writes that stay apart are all there at the end. -/
theorem holds_storeAll (mem : Nat → α) {writes : List (Write α)}
    (hapart : writes.Pairwise Write.Apart) {w : Write α} (hw : w ∈ writes) :
    Holds (storeAll mem writes) w := by
  induction writes generalizing mem with
  | nil => cases hw
  | cons first writes ih =>
    obtain ⟨hfirst, hrest⟩ := List.pairwise_cons.mp hapart
    rcases List.mem_cons.mp hw with rfl | hw
    · exact Holds.storeAll (holds_store mem w) hfirst
    · exact ih (store mem first) hrest hw

/-! ## Reading -/

/-- Some items from a place on. -/
def read (mem : Nat → α) (place count : Nat) : List α :=
  (List.range count).map fun i => mem (place + i)

@[simp] theorem length_read (mem : Nat → α) (place count : Nat) :
    (read mem place count).length = count := by
  simp [read]

theorem read_succ (mem : Nat → α) (place count : Nat) :
    read mem place (count + 1) = read mem place count ++ [mem (place + count)] := by
  simp [read, List.range_succ]

/-- What a write put there reads back. -/
theorem Holds.read {mem : Nat → α} {place : Nat} {items : List α}
    (h : Holds mem ⟨place, items⟩) :
    Writes.read mem place items.length = items := by
  apply List.ext_getElem
  · exact length_read mem place items.length
  · intro i hi hitem
    simpa [Writes.read] using h i hitem

end Writes
