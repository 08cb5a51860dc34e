import Mathlib.Data.List.Basic

/-!
# Lines of a stream

A server acts on the lines of a stream until one of them closes the connection, or a line
gets too long. What it does is said for the whole stream, split at its newlines. A receiver
gets the same stream in pieces of its own choice, keeps what has no newline yet, and is to
have done the same.
-/

universe u v w

namespace Lines

/-- What is done with a line, and what with one that is too long. -/
structure LineServer (α : Type u) (σ : Type v) where
  newline : α
  /-- A line of this length is too long. -/
  limit : Nat
  line : σ → List α → σ
  overrun : σ → σ
  isClosed : σ → Bool

namespace LineServer

variable {α : Type u} {σ : Type v} (srv : LineServer α σ)

/-- The pieces between newlines; the last one has none behind it yet. -/
def serveLines : σ → List (List α) → σ
  | s, [] => s
  | s, [text] => if srv.limit ≤ text.length then srv.overrun s else s
  | s, text :: next :: more =>
    if srv.limit ≤ text.length then srv.overrun s
    else if srv.isClosed (srv.line s text) then srv.line s text
    else serveLines (srv.line s text) (next :: more)

/-- A stream, from the start of a line on. -/
def serve [DecidableEq α] (s : σ) (stream : List α) : σ :=
  srv.serveLines s (stream.splitOn srv.newline)

variable [DecidableEq α] {srv} {text : List α}

theorem splitOn_of_notMem {sep : α} (h : sep ∉ text) : text.splitOn sep = [text] := by
  apply List.splitOnP_eq_singleton
  intro item hitem
  have hne : item ≠ sep := fun heq => h (heq ▸ hitem)
  simpa using hne

theorem splitOn_append_cons {sep : α} (h : sep ∉ text) (rest : List α) :
    (text ++ sep :: rest).splitOn sep = text :: rest.splitOn sep := by
  apply List.splitOnP_append_cons_of_forall_mem
  · intro item hitem
    have hne : item ≠ sep := fun heq => h (heq ▸ hitem)
    simpa using hne
  · simp

/-- The first line of a stream. -/
theorem serve_line (h : srv.newline ∉ text) (hlimit : text.length < srv.limit) (s : σ)
    (rest : List α) : srv.serve s (text ++ srv.newline :: rest) =
      if srv.isClosed (srv.line s text) then srv.line s text
      else srv.serve (srv.line s text) rest := by
  unfold serve
  rw [splitOn_append_cons h]
  cases hrest : rest.splitOn srv.newline with
  | nil => exact absurd hrest (List.splitOn_ne_nil _ _)
  | cons next more => rw [serveLines, if_neg (Nat.not_le.mpr hlimit)]

/-- Nothing is done before the newline. -/
theorem serve_of_notMem (h : srv.newline ∉ text) (hlimit : text.length < srv.limit) (s : σ) :
    srv.serve s text = s := by
  rw [serve, splitOn_of_notMem h, serveLines, if_neg (Nat.not_le.mpr hlimit)]

/-- Without a newline up to the limit the line is too long, whatever follows. -/
theorem serve_overrun (h : srv.newline ∉ text) (hlimit : srv.limit ≤ text.length) (s : σ)
    (rest : List α) : srv.serve s (text ++ rest) = srv.overrun s := by
  by_cases hrest : srv.newline ∈ rest
  · obtain ⟨front, back, rfl, hfront⟩ := List.eq_append_cons_of_mem hrest
    have hskip : srv.newline ∉ text ++ front := by simp [h, hfront]
    have hlong : srv.limit ≤ (text ++ front).length := Nat.le_trans hlimit (by simp)
    unfold serve
    rw [← List.append_assoc, splitOn_append_cons hskip]
    cases hback : back.splitOn srv.newline with
    | nil => exact absurd hback (List.splitOn_ne_nil _ _)
    | cons next more => rw [serveLines, if_pos hlong]
  · have hskip : srv.newline ∉ text ++ rest := by simp [h, hrest]
    rw [serve, splitOn_of_notMem hskip, serveLines, if_pos (Nat.le_trans hlimit (by simp))]

end LineServer

/-! ## In pieces -/

/-- What gets a stream in pieces, with the room there is for the next one. -/
structure Receiver (α : Type u) (γ : Type w) where
  isClosed : γ → Bool
  room : γ → Nat
  receive : γ → List α → γ

variable {α : Type u} {σ : Type v} {γ : Type w}

/-- A stream is received to its end, or until the connection is closed. -/
inductive Delivered (rcv : Receiver α γ) : γ → List α → γ → Prop
  | done {c : γ} : Delivered rcv c [] c
  | closed {c : γ} {rest : List α} (hclosed : rcv.isClosed c = true) : Delivered rcv c rest c
  | piece {c c' : γ} {piece rest : List α} (hopen : rcv.isClosed c = false)
      (hne : piece ≠ []) (hroom : piece.length ≤ rcv.room c)
      (hrest : Delivered rcv (rcv.receive c piece) rest c') : Delivered rcv c (piece ++ rest) c'

/-- What a receiver has done, and that it keeps a text without a newline. -/
structure Keeps [DecidableEq α] (rcv : Receiver α γ) (srv : LineServer α σ)
    (plain : α → Prop)
    (served : γ → σ) (keeps : γ → List α → Prop) : Prop where
  isClosed : ∀ c, rcv.isClosed c = srv.isClosed (served c)
  unended : ∀ c text, keeps c text → srv.newline ∉ text ∧ text.length < srv.limit
  /-- With a piece the receiver does what is to be done up to there. -/
  receive : ∀ c text piece, keeps c text → rcv.isClosed c = false →
    piece.length ≤ rcv.room c → (∀ item ∈ piece, plain item) →
    if rcv.isClosed (rcv.receive c piece) then
      ∀ rest, srv.serve (served c) (text ++ piece ++ rest) = served (rcv.receive c piece)
    else ∃ text', keeps (rcv.receive c piece) text' ∧
      ∀ rest, srv.serve (served c) (text ++ piece ++ rest) =
        srv.serve (served (rcv.receive c piece)) (text' ++ rest)

/-- However a stream is cut into pieces, what is done is what is to be done with the stream. -/
theorem Delivered.served_eq [DecidableEq α] {rcv : Receiver α γ} {srv : LineServer α σ}
    {plain : α → Prop} {served : γ → σ} {keeps : γ → List α → Prop}
    (hkeeps : Keeps rcv srv plain served keeps) {c c' : γ} {stream : List α}
    (h : Delivered rcv c stream c') (hopen : rcv.isClosed c = false) {text : List α}
    (hc : keeps c text) (hplain : ∀ item ∈ stream, plain item) :
    served c' = srv.serve (served c) (text ++ stream) := by
  induction h generalizing text with
  | done =>
    obtain ⟨hnewline, hlimit⟩ := hkeeps.unended _ _ hc
    rw [List.append_nil, LineServer.serve_of_notMem hnewline hlimit]
  | closed hclosed => rw [hclosed] at hopen; cases hopen
  | @piece c c' piece rest _ _ hroom hrest ih =>
    rw [List.forall_mem_append] at hplain
    have hstep := hkeeps.receive c text piece hc hopen hroom hplain.1
    rw [← List.append_assoc]
    cases hclosed : rcv.isClosed (rcv.receive c piece) with
    | true =>
      rw [if_pos hclosed] at hstep
      rw [hstep rest]
      cases hrest with
      | done => rfl
      | closed => rfl
      | piece hopen => rw [hclosed] at hopen; cases hopen
    | false =>
      rw [if_neg (by simp [hclosed])] at hstep
      obtain ⟨text', htext', hserve⟩ := hstep
      rw [hserve rest]
      exact ih hclosed htext' hplain.2

end Lines
