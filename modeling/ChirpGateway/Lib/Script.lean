import Mathlib.Data.List.Basic

/-!
# Pushes of a script

The opcodes that put data on the stack: a constant, up to 75 bytes behind their
number, and up to 255 behind `OP_PUSHDATA1`. A script of pushes is read one way
only.
-/

namespace Script

/-- So many bytes, and what follows them. -/
def takeCounted (size : Nat) (script : List UInt8) : Option (List UInt8 × List UInt8) :=
  if size ≤ script.length then some (script.take size, script.drop size) else none

/-- The data of the first push, and what follows it. -/
def readPush : List UInt8 → Option (List UInt8 × List UInt8)
  | [] => none
  | opcode :: rest =>
    if opcode.toNat ≤ 75 then takeCounted opcode.toNat rest
    else if opcode = 0x4c then rest.head?.bind fun size => takeCounted size.toNat rest.tail
    else if 0x51 ≤ opcode && opcode ≤ 0x60 then some ([opcode - 0x50], rest)
    else none

/-- The script pushes these items and nothing else. -/
inductive PushesTo : List UInt8 → List (List UInt8) → Prop where
  | nil : PushesTo [] []
  | push {script data rest : List UInt8} {items : List (List UInt8)} :
    readPush script = some (data, rest) → PushesTo rest items → PushesTo script (data :: items)

theorem takeCounted_append (data rest : List UInt8) :
    takeCounted data.length (data ++ rest) = some (data, rest) := by
  rw [takeCounted, if_pos (by rw [List.length_append]; exact Nat.le_add_right _ _),
    List.take_left' rfl, List.drop_left' rfl]

theorem length_of_takeCounted {size : Nat} {script data rest : List UInt8}
    (h : takeCounted size script = some (data, rest)) :
    data.length = size ∧ size + rest.length = script.length := by
  unfold takeCounted at h
  split at h
  · next hsize =>
    obtain ⟨rfl, rfl⟩ := Prod.mk.inj (Option.some.inj h)
    rw [List.length_take, List.length_drop, Nat.min_eq_left hsize]
    exact ⟨rfl, Nat.add_sub_cancel' hsize⟩
  · cases h

theorem toNat_ofNat_of_le {size : Nat} (h : size ≤ 255) : (UInt8.ofNat size).toNat = size :=
  UInt8.toNat_ofNat_of_lt' (Nat.lt_succ_of_le h)

theorem readPush_of_le {size : Nat} (h : size ≤ 75) (rest : List UInt8) :
    readPush (UInt8.ofNat size :: rest) = takeCounted size rest := by
  rw [readPush, toNat_ofNat_of_le (Nat.le_trans h (Nat.le_add_right 75 180)), if_pos h]

theorem readPush_pushdata1 {size : Nat} (h : size ≤ 255) (rest : List UInt8) :
    readPush (0x4c :: UInt8.ofNat size :: rest) = takeCounted size rest := by
  have hwide : ¬ (0x4c : UInt8).toNat ≤ 75 := by decide
  rw [readPush, if_neg hwide, if_pos rfl, List.head?_cons, Option.bind_some, List.tail_cons,
    toNat_ofNat_of_le h]

/-- Data of more than one byte takes at least one byte more. -/
theorem length_of_readPush {script data rest : List UInt8}
    (h : readPush script = some (data, rest)) (hdata : 2 ≤ data.length) :
    data.length + rest.length < script.length := by
  cases script with
  | nil => cases h
  | cons opcode script =>
    rw [readPush] at h
    rw [List.length_cons]
    split at h
    · obtain ⟨hsize, hlen⟩ := length_of_takeCounted h
      omega
    · split at h
      · cases script with
        | nil => cases h
        | cons size script =>
          rw [List.head?_cons, Option.bind_some, List.tail_cons] at h
          obtain ⟨hsize, hlen⟩ := length_of_takeCounted h
          rw [List.length_cons]
          omega
      · split at h
        · obtain ⟨rfl, rfl⟩ := Prod.mk.inj (Option.some.inj h)
          exact absurd hdata (by simp)
        · cases h

/-- The first of the items is the first push. -/
theorem PushesTo.uncons {script item : List UInt8} {items : List (List UInt8)}
    (h : PushesTo script (item :: items)) :
    ∃ rest, readPush script = some (item, rest) ∧ PushesTo rest items := by
  cases h with
  | push hread hrest => exact ⟨_, hread, hrest⟩

/-- One push less on both sides. -/
theorem pushesTo_cons_iff {script data rest : List UInt8} {items : List (List UInt8)}
    (hread : readPush script = some (data, rest)) :
    PushesTo script (data :: items) ↔ PushesTo rest items := by
  refine ⟨fun h => ?_, .push hread⟩
  obtain ⟨rest', hread', hrest⟩ := h.uncons
  obtain ⟨-, rfl⟩ := Prod.mk.inj (Option.some.inj (hread.symm.trans hread'))
  exact hrest

end Script
