import Mathlib.Data.List.Basic

/-!
# Bounded send queues

What a peer has received and what still waits for it. A message is appended piece
by piece; a piece that does not fit is left out, and nothing else happens. The peer
takes from the front.
-/

universe u

/-- What was received, and what waits. -/
structure Outbox (α : Type u) where
  sent : List α
  queued : List α

namespace Outbox

variable {α : Type u} (box : Outbox α) (limit : Nat)

/-- Everything that was ever accepted. -/
def stream : List α := box.sent ++ box.queued

def append (piece : List α) : Outbox α :=
  if piece.isEmpty || limit ≤ box.queued.length + piece.length then box
  else { box with queued := box.queued ++ piece }

def appendAll (pieces : List (List α)) : Outbox α := pieces.foldl (append · limit) box

/-- The peer takes so many. -/
def transmit (count : Nat) : Outbox α where
  sent := box.sent ++ box.queued.take count
  queued := box.queued.drop count

/-- A message of these pieces fits, or not even one of its pieces does. -/
def GoesWhole (pieces : List (List α)) : Prop :=
  box.queued.length + pieces.flatten.length < limit ∨
    ∀ piece ∈ pieces, piece ≠ [] → limit ≤ box.queued.length + piece.length

theorem stream_transmit (count : Nat) : (box.transmit count).stream = box.stream := by
  unfold transmit stream
  rw [List.append_assoc, List.take_append_drop]

theorem queued_transmit_length : (box.transmit box.queued.length).queued = [] :=
  List.drop_length

variable {box limit}

theorem append_of_fits {piece : List α} (h : box.queued.length + piece.length < limit) :
    box.append limit piece = { box with queued := box.queued ++ piece } := by
  unfold append
  by_cases hempty : piece = []
  · subst hempty
    rw [List.append_nil]
    rfl
  · rw [if_neg]
    simp [hempty, h]

theorem append_of_full {piece : List α}
    (h : piece ≠ [] → limit ≤ box.queued.length + piece.length) :
    box.append limit piece = box := by
  unfold append
  by_cases hempty : piece = []
  · rw [if_pos (by simp [hempty])]
  · rw [if_pos (by simp [h hempty])]

theorem appendAll_cons (piece : List α) (pieces : List (List α)) :
    box.appendAll limit (piece :: pieces) = (box.append limit piece).appendAll limit pieces := rfl

theorem appendAll_of_fits {pieces : List (List α)}
    (h : box.queued.length + pieces.flatten.length < limit) :
    box.appendAll limit pieces = { box with queued := box.queued ++ pieces.flatten } := by
  induction pieces generalizing box with
  | nil => simp [appendAll]
  | cons piece pieces ih =>
    rw [List.flatten_cons, List.length_append] at h
    rw [appendAll_cons, append_of_fits (by omega), ih (by simp only [List.length_append]; omega)]
    simp

theorem appendAll_of_full {pieces : List (List α)}
    (h : ∀ piece ∈ pieces, piece ≠ [] → limit ≤ box.queued.length + piece.length) :
    box.appendAll limit pieces = box := by
  induction pieces with
  | nil => rfl
  | cons piece pieces ih =>
    rw [appendAll_cons, append_of_full (h piece List.mem_cons_self)]
    exact ih fun other hother => h other (List.mem_cons_of_mem piece hother)

/-- Whatever is in the stream was there before or came with a piece. -/
theorem mem_stream_appendAll {pieces : List (List α)} {x : α}
    (h : x ∈ (box.appendAll limit pieces).stream) :
    x ∈ box.stream ∨ ∃ piece ∈ pieces, x ∈ piece := by
  induction pieces generalizing box with
  | nil => exact Or.inl h
  | cons piece pieces ih =>
    rw [appendAll_cons] at h
    rcases ih h with hstream | ⟨other, hother, hx⟩
    · unfold append at hstream
      split at hstream
      · exact Or.inl hstream
      · unfold stream at hstream ⊢
        rw [← List.append_assoc] at hstream
        rcases List.mem_append.mp hstream with hold | hnew
        · exact Or.inl hold
        · exact Or.inr ⟨piece, List.mem_cons_self, hnew⟩
    · exact Or.inr ⟨other, List.mem_cons_of_mem _ hother, hx⟩

/-- A message that goes whole is accepted as it is, or leaves no trace. -/
theorem appendAll_of_goesWhole {pieces : List (List α)} (h : box.GoesWhole limit pieces) :
    box.appendAll limit pieces = box ∨
      box.appendAll limit pieces = { box with queued := box.queued ++ pieces.flatten } := by
  rcases h with hfits | hfull
  · exact Or.inr (appendAll_of_fits hfits)
  · exact Or.inl (appendAll_of_full hfull)

/-- A message in one piece always goes whole. -/
theorem goesWhole_singleton (piece : List α) : box.GoesWhole limit [piece] := by
  unfold GoesWhole
  rw [List.flatten_singleton]
  by_cases hfits : box.queued.length + piece.length < limit
  · exact Or.inl hfits
  · right
    intro other hother _
    rw [List.mem_singleton.mp hother]
    exact Nat.le_of_not_lt hfits

/-! ## Streams of whole messages -/

/-- The stream is made of some of the messages, in their order. -/
def Carries (box : Outbox α) (messages : List (List α)) : Prop :=
  ∃ kept : List (List α), kept.Sublist messages ∧ box.stream = kept.flatten

theorem Carries.transmit {messages : List (List α)} (h : box.Carries messages) (count : Nat) :
    (box.transmit count).Carries messages := by
  unfold Carries
  rw [stream_transmit]
  exact h

theorem Carries.appendAll {messages : List (List α)} (h : box.Carries messages)
    {pieces added : List (List α)} (hadded : pieces.flatten = added.flatten)
    (hwhole : box.GoesWhole limit pieces) :
    (box.appendAll limit pieces).Carries (messages ++ added) := by
  obtain ⟨kept, hkept, hstream⟩ := h
  rcases appendAll_of_goesWhole hwhole with hsame | hall
  · refine ⟨kept, hkept.trans (List.sublist_append_left _ _), ?_⟩
    rw [hsame, hstream]
  · refine ⟨kept ++ added, hkept.append (List.Sublist.refl _), ?_⟩
    rw [hall, List.flatten_append, ← hstream, ← hadded]
    unfold stream
    rw [List.append_assoc]

end Outbox
