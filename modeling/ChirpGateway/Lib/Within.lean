import Mathlib.Data.List.Basic
import Mathlib.Tactic.SplitIfs

/-!
# Reads inside a message, writes inside a buffer

A message stands in memory, and something stands behind it. A reader that is given the
message alone gets nothing where it leaves it; what it gets is what the memory holds. A
writer fills a buffer of a size from its start.
-/

namespace Within

universe u

variable {α : Type u}

/-- A field of the message, if all of it is inside. -/
def span (msg : List α) (offset size : Nat) : Option (List α) :=
  if offset + size ≤ msg.length then some ((msg.drop offset).take size) else none

theorem span_eq_none_iff {msg : List α} {offset size : Nat} :
    span msg offset size = none ↔ msg.length < offset + size := by
  simp [span]

theorem length_of_span {msg field : List α} {offset size : Nat}
    (h : span msg offset size = some field) : field.length = size := by
  unfold span at h
  split_ifs at h with hinside
  obtain rfl := Option.some.inj h
  rw [List.length_take, List.length_drop]
  omega

/-- Inside the message the memory reads as the message. -/
theorem getElem?_append_of_lt (msg rest : List α) (fallback : α) {i : Nat} (h : i < msg.length) :
    msg[i]? = some ((msg ++ rest).getD i fallback) := by
  simp [h, List.getElem?_append_left h]

theorem span_append (msg rest : List α) {offset size : Nat} (h : offset + size ≤ msg.length) :
    span msg offset size = some (((msg ++ rest).drop offset).take size) := by
  rw [span, if_pos h, List.drop_append_of_le_length (by omega), List.take_append_of_le_length]
  rw [List.length_drop]
  omega

/-- Writing behind what is in the buffer, if there is room. -/
def put (room : Nat) (written bytes : List α) : Option (List α) :=
  if written.length + bytes.length ≤ room then some (written ++ bytes) else none

theorem put_of_room {room : Nat} {written bytes : List α}
    (h : written.length + bytes.length ≤ room) :
    put room written bytes = some (written ++ bytes) :=
  if_pos h

theorem put_eq_none_iff {room : Nat} {written bytes : List α} :
    put room written bytes = none ↔ room < written.length + bytes.length := by
  simp [put]

end Within
