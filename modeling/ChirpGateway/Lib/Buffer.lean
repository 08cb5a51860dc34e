import Mathlib.Data.List.TakeWhile

/-!
# Memory buffers holding C strings

A buffer is the list of the bytes in memory. A text is put into it piece by
piece, which leaves the bytes behind the last piece as they were, and is read
back up to the first zero byte.
-/

namespace Buffer

/-- The buffer after `bytes` are stored from `offset` on. -/
def writeAt (mem : List UInt8) (offset : Nat) (bytes : List UInt8) : List UInt8 :=
  mem.take offset ++ bytes ++ mem.drop (offset + bytes.length)

/-- Bytes that are stored take the place of as many. -/
theorem writeAt_append (front behind : List UInt8) {old bytes : List UInt8}
    (h : old.length = bytes.length) :
    writeAt (front ++ old ++ behind) front.length bytes = front ++ bytes ++ behind := by
  have hplace : front.length + bytes.length = (front ++ old).length := by
    rw [List.length_append, h]
  rw [writeAt, hplace, List.drop_left, List.append_assoc front old behind, List.take_left]

theorem length_writeAt {mem bytes : List UInt8} {offset : Nat}
    (h : offset + bytes.length ≤ mem.length) :
    (writeAt mem offset bytes).length = mem.length := by
  rw [writeAt, List.length_append, List.length_append, List.length_drop,
    List.length_take_of_le (by omega)]
  omega

/-- What is stored is read from its place on. -/
theorem drop_writeAt {mem : List UInt8} {offset : Nat} (h : offset ≤ mem.length)
    (bytes : List UInt8) :
    (writeAt mem offset bytes).drop offset = bytes ++ mem.drop (offset + bytes.length) := by
  have htake : (mem.take offset).length = offset := List.length_take_of_le h
  rw [writeAt, List.append_assoc, List.drop_append, htake, Nat.sub_self, List.drop_zero,
    List.drop_eq_nil_of_le (Nat.le_of_eq htake), List.nil_append]

/-- The C string at the start of the buffer. -/
def cString (mem : List UInt8) : List UInt8 :=
  mem.takeWhile (· ≠ 0)

theorem zero_notMem_cString (mem : List UInt8) : 0 ∉ cString mem := by
  intro hmem
  have hne := List.mem_takeWhile_imp hmem
  simp at hne

theorem cString_eq_self {mem : List UInt8} (hmem : 0 ∉ mem) : cString mem = mem := by
  rw [cString, List.takeWhile_eq_self_iff]
  intro byte hbyte
  rw [decide_eq_true_iff]
  rintro rfl
  exact hmem hbyte

theorem cString_append_of_notMem {text : List UInt8} (htext : 0 ∉ text) (rest : List UInt8) :
    cString (text ++ rest) = text ++ cString rest := by
  have htake := cString_eq_self htext
  rw [cString, List.takeWhile_eq_self_iff] at htake
  rw [cString, List.takeWhile_append_of_pos htake, cString]

/-- A text reads back up to its terminator. -/
theorem cString_append_zero {text : List UInt8} (htext : 0 ∉ text) (rest : List UInt8) :
    cString (text ++ 0 :: rest) = text := by
  rw [cString_append_of_notMem htext]
  simp [cString]

/-- `strchr` in a string: the place of the first such byte. -/
def strchr (text : List UInt8) (ch : UInt8) : Option Nat :=
  if ch ∈ text then some (text.idxOf ch) else none

theorem strchr_of_notMem {text : List UInt8} {ch : UInt8} (h : ch ∉ text) :
    strchr text ch = none := if_neg h

/-- A byte that is not in the first part is looked for behind it. -/
theorem strchr_append_cons {before : List UInt8} {ch : UInt8} (h : ch ∉ before)
    (rest : List UInt8) : strchr (before ++ ch :: rest) ch = some before.length := by
  simp [strchr, List.idxOf_append, h]

/-- The buffer starts with these bytes. -/
def Holds (mem bytes : List UInt8) : Prop :=
  bytes <+: mem

theorem Holds.nil (mem : List UInt8) : Holds mem [] :=
  List.nil_prefix

/-- Storing the next piece behind a prefix that is already there extends it. -/
theorem Holds.writeAt {mem written : List UInt8} (hheld : Holds mem written)
    (piece : List UInt8) :
    Holds (Buffer.writeAt mem written.length piece) (written ++ piece) := by
  have htake : mem.take written.length = written := (List.prefix_iff_eq_take.mp hheld).symm
  rw [Buffer.writeAt, htake]
  exact List.prefix_append _ _

/-- The next piece of a text continues what was taken of it. -/
theorem take_append_piece (text : List UInt8) (offset count : Nat) :
    text.take offset ++ (text.drop offset).take count =
      text.take (offset + ((text.drop offset).take count).length) := by
  have htake : (text.drop offset).take ((text.drop offset).take count).length =
      (text.drop offset).take count := by
    rw [List.length_take, List.take_eq_take_iff]
    omega
  rw [List.take_add, htake]

/-- Storing the next piece of a text of which the first part is there. -/
theorem Holds.writeNext {mem text : List UInt8} {written : Nat}
    (hheld : Holds mem (text.take written)) (hwritten : written ≤ text.length) (count : Nat) :
    Holds (Buffer.writeAt mem written ((text.drop written).take count))
      (text.take (written + ((text.drop written).take count).length)) := by
  have hpiece := hheld.writeAt ((text.drop written).take count)
  rwa [List.length_take_of_le hwritten, take_append_piece] at hpiece

/-- A text without zero bytes reads back whole once its terminator is stored. -/
theorem Holds.cString_eq {mem text : List UInt8} (hheld : Holds mem (text ++ [0]))
    (htext : 0 ∉ text) : cString mem = text := by
  obtain ⟨rest, rfl⟩ := hheld
  have htake := cString_eq_self htext
  rw [cString, List.takeWhile_eq_self_iff] at htake
  rw [cString, List.append_assoc, List.takeWhile_append_of_pos htake]
  simp

/-- Any window inside the held bytes reads as that window of them. -/
theorem Holds.window {mem bytes : List UInt8} (hheld : Holds mem bytes) {offset count : Nat}
    (hbound : offset + count ≤ bytes.length) :
    (mem.drop offset).take count = (bytes.drop offset).take count := by
  obtain ⟨rest, rfl⟩ := hheld
  rw [List.drop_append_of_le_length (by omega), List.take_append_of_le_length]
  rw [List.length_drop]
  omega

end Buffer
