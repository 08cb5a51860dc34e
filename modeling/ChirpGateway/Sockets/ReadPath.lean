import ChirpGateway.Lib.Buffer
import ChirpGateway.Lib.Lines
import ChirpGateway.Stratum.Client

/-!
# Lines from a socket

How the thread cuts what a client sends into lines (`datum_sockets.c:241-341`). They are cut in
the read buffer, a PROXY line in front of all others may say where the client really is, and
what has no newline yet is moved to the front for the next `recv`.
-/

universe u

namespace ChirpGateway

open Bytes Buffer Lines

/-- What a line is taken for. -/
inductive LineEvent where
  /-- `client_cmd_func` is called with it. -/
  | command (line : List UInt8)
  /-- A PROXY line that `rem_host` is taken from. -/
  | remHost (line : List UInt8)
deriving DecidableEq

/-- What the lines of a client change, with what became of them. `app` is the data of the
    application. -/
structure LineClient (σ : Type u) where
  app : σ
  remHost : List UInt8
  proxyLineRead : Int32
  events : List LineEvent
  /-- where the next line starts in the stream -/
  position : Nat
  /-- how much of the stream was taken when the connection was closed -/
  closedAt : Option Nat

/-- `sscanf(line, "PROXY proto %<width>s", word)` with such a protocol, where it is 1. -/
def sscanfProxy (proto : List UInt8) (width : Nat) (line : List UInt8) : Option (List UInt8) :=
  if line.take 5 = ascii "PROXY" then
    let rest := (line.drop 5).dropWhile isSpace
    if rest.take proto.length = proto then
      let word := ((rest.drop proto.length).dropWhile isSpace).takeWhile fun ch => !isSpace ch
      if word ≠ [] then some (word.take width) else none
    else none
  else none

section

variable {σ : Type u} (trustProxy : Int32)
  (clientCmdFunc : σ → List UInt8 → List UInt8 → σ × Int32)

namespace LineClient

variable (c : LineClient σ) (line : List UInt8)

/-- A PROXY line. -/
def proxyLine : LineClient σ :=
  let c := { c with proxyLineRead := c.proxyLineRead + 1 }
  if c.proxyLineRead ≤ trustProxy then
    match (sscanfProxy (ascii "TCP4") 15 line).orElse fun _ =>
        sscanfProxy (ascii "TCP6") 45 line with
    | some srcIp => { c with remHost := srcIp, events := c.events ++ [.remHost line] }
    | none => c
  else c

/-- A line for the application, which returns less than zero to have the connection closed. -/
def command : LineClient σ :=
  let result := clientCmdFunc c.app c.remHost line
  { c with
    app := result.1
    events := c.events ++ [.command line]
    closedAt := if result.2 < 0 then some (c.position + line.length + 1) else none }

/-- The body of the loop over the lines. -/
def serveLine : LineClient σ :=
  let served :=
    if trustProxy ≠ -1 ∧ c.proxyLineRead ≠ -1 then
      if line.take 6 = ascii "PROXY " then c.proxyLine trustProxy line
      else { c with proxyLineRead := -1 }.command clientCmdFunc line
    else c.command clientCmdFunc line
  { served with position := c.position + line.length + 1 }

/-- The buffer is full with so many bytes that have no newline. -/
def overrun (leftover : Nat) : LineClient σ :=
  { c with closedAt := some (c.position + leftover) }

end LineClient

/-- The loop over the lines in the buffer: the buffer, with each newline that was found
    replaced by a terminator, and `start_line`. -/
def readLines : (fuel : Nat) → (buffer : List UInt8) → (startLine : Nat) → LineClient σ →
    List UInt8 × Nat × LineClient σ
  | 0, buffer, startLine, c => (buffer, startLine, c)
  | fuel + 1, buffer, startLine, c =>
    match strchr (cString (buffer.drop startLine)) 0x0a with
    | none => (buffer, startLine, c)
    | some endLine =>
      let buffer := writeAt buffer (startLine + endLine) [0]
      let c := c.serveLine trustProxy clientCmdFunc (cString (buffer.drop startLine))
      if c.closedAt.isSome then (writeAt buffer startLine [0], startLine, c)
      else readLines fuel buffer (startLine + endLine + 1) c

/-- `T_DATUM_CLIENT_DATA`, as far as reading goes. -/
structure ReadClient (σ : Type u) where
  buffer : List UInt8
  inBuf : Nat
  lines : LineClient σ

/-- A `recv` that returned these bytes. -/
def ReadClient.receive (c : ReadClient σ) (bytes : List UInt8) : ReadClient σ :=
  let buffer := writeAt c.buffer c.inBuf bytes
  let buffer := writeAt buffer (c.inBuf + bytes.length) [0]
  -- Every turn of the loop uses up a byte of the buffer.
  let (buffer, startLine, lines) := readLines trustProxy clientCmdFunc clientBuffer buffer 0 c.lines
  let leftover := cString (buffer.drop startLine)
  let buffer := if leftover ≠ [] then writeAt buffer 0 (leftover ++ [0]) else buffer
  if leftover.length ≥ clientBuffer - 1 then
    ⟨writeAt buffer 0 [0], 0, lines.overrun leftover.length⟩
  else ⟨buffer, leftover.length, lines⟩

/-- A client that is read from, with as much as `recv` is asked for. -/
def clientReceiver : Receiver UInt8 (ReadClient σ) where
  isClosed c := c.lines.closedAt.isSome
  room c := clientBuffer - 1 - c.inBuf
  receive := ReadClient.receive trustProxy clientCmdFunc

/-- What is to be done with the stream of a client. -/
def clientServer : LineServer UInt8 (LineClient σ) where
  newline := 0x0a
  limit := clientBuffer - 1
  line := LineClient.serveLine trustProxy clientCmdFunc
  overrun c := c.overrun (clientBuffer - 1)
  isClosed c := c.closedAt.isSome

end

/-! ## Cutting in place -/

section

variable {σ : Type u} {trustProxy : Int32}
  {clientCmdFunc : σ → List UInt8 → List UInt8 → σ × Int32}

/-- What the loop over the lines leaves of a text: nothing, where the connection was closed,
    and else what has no newline. -/
structure ReadsLines (trustProxy : Int32)
    (clientCmdFunc : σ → List UInt8 → List UInt8 → σ × Int32)
    (c : LineClient σ) (text buffer : List UInt8) (result : List UInt8 × Nat × LineClient σ)
    (left : List UInt8) : Prop where
  length : result.1.length = buffer.length
  leftover : cString (result.1.drop result.2.1) = left
  notMem : 0x0a ∉ left
  length_le : left.length ≤ text.length
  closed : result.2.2.closedAt.isSome → left = []
  serve : ∀ rest, (clientServer trustProxy clientCmdFunc).serve c (text ++ rest) =
    if result.2.2.closedAt.isSome then result.2.2
    else (clientServer trustProxy clientCmdFunc).serve result.2.2 (left ++ rest)

/-- The newline becomes the terminator of its line. -/
theorem cut_line (front line more behind : List UInt8) :
    writeAt (front ++ (line ++ 0x0a :: more) ++ 0 :: behind) (front.length + line.length) [0] =
      front ++ line ++ 0 :: (more ++ 0 :: behind) := by
  have hold := writeAt_append (front ++ line) (more ++ 0 :: behind)
    (show ([0x0a] : List UInt8).length = ([0] : List UInt8).length from rfl)
  simpa using hold

theorem cString_drop_front {text : List UInt8} (hzero : 0 ∉ text) (front behind : List UInt8) :
    cString ((front ++ text ++ 0 :: behind).drop front.length) = text := by
  rw [List.append_assoc, List.drop_left, cString_append_zero hzero]

/-- A line is served before what follows it, and nothing after a close. -/
theorem serve_first_line {line : List UInt8} (hline : 0x0a ∉ line)
    (hlimit : line.length < clientBuffer - 1) (c : LineClient σ) (more rest : List UInt8) :
    (clientServer trustProxy clientCmdFunc).serve c (line ++ 0x0a :: more ++ rest) =
      if (c.serveLine trustProxy clientCmdFunc line).closedAt.isSome then
        c.serveLine trustProxy clientCmdFunc line
      else (clientServer trustProxy clientCmdFunc).serve
        (c.serveLine trustProxy clientCmdFunc line) (more ++ rest) := by
  rw [List.append_assoc, List.cons_append]
  exact LineServer.serve_line hline hlimit c (more ++ rest)

/-- The loop ends where it finds no newline. -/
theorem readsLines_of_notMem {text : List UInt8} (front behind : List UInt8) (hzero : 0 ∉ text)
    (hnewline : 0x0a ∉ text) {c : LineClient σ} (hopen : c.closedAt = none) :
    ReadsLines trustProxy clientCmdFunc c text (front ++ text ++ 0 :: behind)
      (front ++ text ++ 0 :: behind, front.length, c) text where
  length := rfl
  leftover := cString_drop_front hzero front behind
  notMem := hnewline
  length_le := Nat.le_refl _
  closed hclosed := by
    rw [hopen] at hclosed
    cases hclosed
  serve rest := by rw [if_neg (by simp [hopen])]

/-- It ends behind a line that has the connection closed. -/
theorem readsLines_of_closed {line : List UInt8} (front more behind : List UInt8)
    (hline : 0x0a ∉ line) (hlimit : line.length < clientBuffer - 1) {c : LineClient σ}
    (hclosed : (c.serveLine trustProxy clientCmdFunc line).closedAt.isSome) :
    ReadsLines trustProxy clientCmdFunc c (line ++ 0x0a :: more)
      (front ++ (line ++ 0x0a :: more) ++ 0 :: behind)
      (writeAt (front ++ line ++ 0 :: (more ++ 0 :: behind)) front.length [0], front.length,
        c.serveLine trustProxy clientCmdFunc line) [] where
  length := by
    rw [length_writeAt (by simp; omega)]
    simp
  leftover := by
    have hplace : front.length ≤ (front ++ line ++ 0 :: (more ++ 0 :: behind)).length := by
      simp
    rw [drop_writeAt hplace]
    rfl
  notMem := List.not_mem_nil
  length_le := Nat.zero_le _
  closed _ := rfl
  serve rest := by rw [serve_first_line hline hlimit, if_pos hclosed, if_pos hclosed]

/-- Else it goes on behind the line, in the same buffer. -/
theorem ReadsLines.line {line more left : List UInt8} {front behind : List UInt8}
    {c : LineClient σ} {result : List UInt8 × Nat × LineClient σ} (hline : 0x0a ∉ line)
    (hlimit : line.length < clientBuffer - 1)
    (hopen : (c.serveLine trustProxy clientCmdFunc line).closedAt = none)
    (h : ReadsLines trustProxy clientCmdFunc (c.serveLine trustProxy clientCmdFunc line) more
      (front ++ line ++ [0] ++ more ++ 0 :: behind) result left) :
    ReadsLines trustProxy clientCmdFunc c (line ++ 0x0a :: more)
      (front ++ (line ++ 0x0a :: more) ++ 0 :: behind) result left where
  length := by
    rw [h.length]
    simp
  leftover := h.leftover
  notMem := h.notMem
  length_le := Nat.le_trans h.length_le (by simp; omega)
  closed := h.closed
  serve rest := by
    rw [serve_first_line hline hlimit, if_neg (by simp [hopen]), ← h.serve]

/-- The loop over the lines of a text in the buffer, by the turns it takes. -/
theorem readLines_spec {fuel : Nat} {text : List UInt8} (front behind : List UInt8)
    (hzero : 0 ∉ text) (hlimit : text.length ≤ clientBuffer - 1) (hfuel : text.length < fuel)
    {c : LineClient σ} (hopen : c.closedAt = none) :
    ∃ left, ReadsLines trustProxy clientCmdFunc c text (front ++ text ++ 0 :: behind)
      (readLines trustProxy clientCmdFunc fuel (front ++ text ++ 0 :: behind) front.length c)
      left := by
  induction fuel generalizing front text c with
  | zero => omega
  | succ fuel ih =>
    rw [readLines, cString_drop_front hzero]
    by_cases hnewline : 0x0a ∈ text
    · obtain ⟨line, more, rfl, hline⟩ := List.eq_append_cons_of_mem hnewline
      rw [List.mem_append, List.mem_cons, not_or, not_or] at hzero
      obtain ⟨hline0, -, hmore0⟩ := hzero
      rw [List.length_append, List.length_cons] at hlimit hfuel
      have hshort : line.length < clientBuffer - 1 := by omega
      rw [strchr_append_cons hline]
      dsimp only
      rw [cut_line, cString_drop_front hline0]
      cases hclosed : (c.serveLine trustProxy clientCmdFunc line).closedAt with
      | some place =>
        rw [if_pos (by rfl)]
        have hsome : (c.serveLine trustProxy clientCmdFunc line).closedAt.isSome := by
          rw [hclosed]
          rfl
        exact ⟨[], readsLines_of_closed front more behind hline hshort hsome⟩
      | none =>
        rw [if_neg (by simp)]
        have hbuffer : front ++ line ++ 0 :: (more ++ 0 :: behind) =
            front ++ line ++ [0] ++ more ++ 0 :: behind := by
          simp
        have hplace : front.length + line.length + 1 = (front ++ line ++ [0]).length := by
          simp [Nat.add_assoc]
        rw [hbuffer, hplace]
        obtain ⟨left, hnext⟩ := ih (front ++ line ++ [0]) hmore0 (by omega) (by omega) hclosed
        exact ⟨left, hnext.line hline hshort hclosed⟩
    · rw [strchr_of_notMem hnewline]
      exact ⟨text, readsLines_of_notMem front behind hzero hnewline hopen⟩

/-! ## Piece by piece -/

/-- The text that has no newline yet is at the front of the buffer. -/
structure ReadClient.Keeps (c : ReadClient σ) (text : List UInt8) : Prop where
  length : c.buffer.length = clientBuffer
  holds : Holds c.buffer text
  inBuf : c.inBuf = text.length
  notMem : 0x0a ∉ text
  plain : 0 ∉ text
  room : text.length < clientBuffer - 1

/-- A `recv` puts its bytes and a terminator behind the text. -/
theorem ReadClient.Keeps.buffer_recv {c : ReadClient σ} {text piece : List UInt8}
    (h : c.Keeps text) (hroom : piece.length ≤ clientBuffer - 1 - c.inBuf) :
    ∃ behind, (text ++ piece ++ 0 :: behind).length = clientBuffer ∧
      writeAt (writeAt c.buffer c.inBuf piece) (c.inBuf + piece.length) [0] =
        text ++ piece ++ 0 :: behind := by
  obtain ⟨old, hold⟩ := h.holds
  have hlength := h.length
  rw [← hold, List.length_append] at hlength
  have hkept := h.room
  rw [h.inBuf] at hroom ⊢
  have htaken : (old.take piece.length).length = piece.length :=
    List.length_take_of_le (by omega)
  have hsplit := List.take_append_drop piece.length old
  cases hrest : old.drop piece.length with
  | nil =>
    have hshort := List.drop_eq_nil_iff.mp hrest
    omega
  | cons first behind =>
    rw [hrest] at hsplit
    have hbehind := congrArg List.length hsplit
    rw [List.length_append, htaken, List.length_cons] at hbehind
    refine ⟨behind, by simp; omega, ?_⟩
    rw [← hold, ← hsplit, ← List.append_assoc, writeAt_append text (first :: behind) htaken,
      ← List.length_append]
    have hterminated := writeAt_append (text ++ piece) behind
      (show ([first] : List UInt8).length = ([0] : List UInt8).length from rfl)
    simpa using hterminated

/-- What `recv` put there is read, and the client keeps what the loop leaves. -/
theorem ReadClient.receive_eq {c : ReadClient σ} {piece read buffer left : List UInt8}
    {startLine : Nat} {lines : LineClient σ}
    (hbuffer : writeAt (writeAt c.buffer c.inBuf piece) (c.inBuf + piece.length) [0] = read)
    (hresult : readLines trustProxy clientCmdFunc clientBuffer read 0 c.lines =
      (buffer, startLine, lines))
    (hleft : cString (buffer.drop startLine) = left) :
    c.receive trustProxy clientCmdFunc piece =
      if left.length ≥ clientBuffer - 1 then
        ⟨writeAt (if left ≠ [] then writeAt buffer 0 (left ++ [0]) else buffer) 0 [0], 0,
          lines.overrun left.length⟩
      else ⟨if left ≠ [] then writeAt buffer 0 (left ++ [0]) else buffer, left.length,
        lines⟩ := by
  rw [ReadClient.receive, hbuffer]
  simp only [hresult, hleft]

/-- What the loop leaves goes to the front of the buffer. -/
theorem ReadsLines.keeps {c lines : LineClient σ} {text left buffer read : List UInt8}
    {startLine : Nat}
    (h : ReadsLines trustProxy clientCmdFunc c text read (buffer, startLine, lines) left)
    (hlength : read.length = clientBuffer) (hroom : left.length < clientBuffer - 1) :
    (ReadClient.mk (if left ≠ [] then writeAt buffer 0 (left ++ [0]) else buffer) left.length
      lines).Keeps left := by
  have hbuffer : buffer.length = clientBuffer := h.length.trans hlength
  have hplain : 0 ∉ left := h.leftover ▸ zero_notMem_cString _
  refine ⟨?_, ?_, rfl, h.notMem, hplain, hroom⟩
  · dsimp only
    split_ifs
    · rw [length_writeAt (by simp; omega), hbuffer]
    · exact hbuffer
  · dsimp only
    split_ifs with hne
    · exact ⟨_, by rw [writeAt, List.take_zero, List.nil_append, List.append_assoc]⟩
    · rw [not_ne_iff.mp hne]
      exact Holds.nil _

/-- With a piece of the stream the client does what is to be done up to there. -/
theorem keeps_receive (trustProxy : Int32)
    (clientCmdFunc : σ → List UInt8 → List UInt8 → σ × Int32) :
    Lines.Keeps (clientReceiver trustProxy clientCmdFunc) (clientServer trustProxy clientCmdFunc)
      (· ≠ 0) ReadClient.lines ReadClient.Keeps where
  isClosed _ := rfl
  unended c text h := ⟨h.notMem, h.room⟩
  receive c text piece h hopen hroom hpiece := by
    obtain ⟨behind, hlength, hbuffer⟩ := h.buffer_recv hroom
    have hzero : 0 ∉ text ++ piece := by
      rw [List.mem_append, not_or]
      exact ⟨h.plain, fun hmem => hpiece 0 hmem rfl⟩
    have hkept := h.room
    have hfits : (text ++ piece).length ≤ clientBuffer - 1 := by
      have hspace : piece.length ≤ clientBuffer - 1 - c.inBuf := hroom
      rw [h.inBuf] at hspace
      rw [List.length_append]
      omega
    have hopen' : c.lines.closedAt = none :=
      Option.isNone_iff_eq_none.mp (Option.isSome_eq_false_iff.mp hopen)
    have hfuel : (text ++ piece).length < clientBuffer := by omega
    obtain ⟨left, hread⟩ := readLines_spec [] behind hzero hfits hfuel hopen'
    rw [List.nil_append, List.length_nil] at hread
    rcases hresult : readLines trustProxy clientCmdFunc clientBuffer
      (text ++ piece ++ 0 :: behind) 0 c.lines with ⟨buffer, startLine, lines⟩
    rw [hresult] at hread
    have hreceive : (clientReceiver trustProxy clientCmdFunc).receive c piece = _ :=
      ReadClient.receive_eq hbuffer hresult hread.leftover
    have hserve := hread.serve
    dsimp only at hserve
    rw [hreceive]
    by_cases hfull : left.length ≥ clientBuffer - 1
    · -- Nothing of the text was a line, so it fills the buffer.
      have hle : left.length = clientBuffer - 1 := le_antisymm (hread.length_le.trans hfits) hfull
      have hstill : lines.closedAt.isSome = false := by
        by_contra hclosed
        have hempty := hread.closed (Bool.eq_true_of_not_eq_false hclosed)
        subst hempty
        cases hle
      rw [if_pos hfull, if_pos (by rfl)]
      intro rest
      have hlong : (clientServer trustProxy clientCmdFunc).limit ≤ left.length := hfull
      rw [hserve, if_neg (by simp [hstill]), LineServer.serve_overrun hread.notMem hlong, hle]
      rfl
    · rw [if_neg hfull]
      cases hclosed : lines.closedAt.isSome with
      | true =>
        rw [if_pos (show (clientReceiver trustProxy clientCmdFunc).isClosed ⟨_, _, lines⟩ = true
          from hclosed)]
        intro rest
        rw [hserve, if_pos hclosed]
      | false =>
        have hstill : ¬ lines.closedAt.isSome = true := by simp [hclosed]
        rw [if_neg
          (show ¬ (clientReceiver trustProxy clientCmdFunc).isClosed ⟨_, _, lines⟩ = true
          from hstill)]
        refine ⟨left, hread.keeps hlength (Nat.lt_of_not_le hfull), fun rest => ?_⟩
        rw [hserve, if_neg hstill]

/-! ## The stream -/

/-- A client that was just accepted, with whatever is in its buffer. -/
structure ReadClient.IsNew (c : ReadClient σ) : Prop where
  length : c.buffer.length = clientBuffer
  inBuf : c.inBuf = 0
  proxyLineRead : c.lines.proxyLineRead = 0
  events : c.lines.events = []
  position : c.lines.position = 0
  closedAt : c.lines.closedAt = none

/-- However `recv` cuts the stream of a client, the lines that are passed on, those that
    `rem_host` is taken from, and the place at which the connection is closed are those of the
    stream split at its newlines. -/
theorem delivered_lines (trustProxy : Int32)
    (clientCmdFunc : σ → List UInt8 → List UInt8 → σ × Int32) {c c' : ReadClient σ}
    (hnew : c.IsNew)
    {stream : List UInt8} (hplain : ∀ byte ∈ stream, byte ≠ 0)
    (h : Delivered (clientReceiver trustProxy clientCmdFunc) c stream c') :
    c'.lines = (clientServer trustProxy clientCmdFunc).serve c.lines stream := by
  have hkeeps : c.Keeps [] :=
    ⟨hnew.length, Holds.nil _, hnew.inBuf, List.not_mem_nil, List.not_mem_nil, by decide⟩
  have hopen : (clientReceiver trustProxy clientCmdFunc).isClosed c = false := by
    show c.lines.closedAt.isSome = false
    rw [hnew.closedAt]
    rfl
  exact h.served_eq (keeps_receive trustProxy clientCmdFunc) hopen hkeeps hplain

end

/-- A client whose buffer is full of zeroes. -/
def acceptedClient : ReadClient Nat where
  buffer := List.replicate clientBuffer 0
  inBuf := 0
  lines :=
    { app := 0, remHost := ascii "10.0.0.1", proxyLineRead := 0, events := [], position := 0,
      closedAt := none }

/-- An application that counts its lines, and has the connection closed at the second. -/
def secondLineCloses (count : Nat) (_remHost _line : List UInt8) : Nat × Int32 :=
  (count + 1, if count = 1 then -1 else 0)

/-- A PROXY line and two others, cut in the middle of lines. -/
theorem acceptedClient_delivered :
    ∃ c', Delivered (clientReceiver 1 secondLineCloses) acceptedClient
        (ascii "PROXY TC" ++ (ascii "P4 1.2.3.4 2\nhi\ng" ++ (ascii "o\nmo" ++ ascii "re\n")))
          c' ∧
      c'.lines.remHost = ascii "1.2.3.4" ∧
      c'.lines.events = [.remHost (ascii "PROXY TCP4 1.2.3.4 2"), .command (ascii "hi"),
        .command (ascii "go")] ∧
      c'.lines.closedAt = some 27 := by
  have hdelivered : Delivered (clientReceiver 1 secondLineCloses) acceptedClient
      (ascii "PROXY TC" ++ (ascii "P4 1.2.3.4 2\nhi\ng" ++ (ascii "o\nmo" ++ ascii "re\n")))
      ([ascii "PROXY TC", ascii "P4 1.2.3.4 2\nhi\ng", ascii "o\nmo"].foldl
        (clientReceiver 1 secondLineCloses).receive acceptedClient) := by
    refine .piece rfl ?_ ?_ (.piece ?_ ?_ ?_ (.piece ?_ ?_ ?_ (.closed ?_)))
    all_goals decide +kernel
  have hlines := delivered_lines 1 secondLineCloses
    ⟨List.length_replicate, rfl, rfl, rfl, rfl, rfl⟩ (by decide +kernel) hdelivered
  refine ⟨_, hdelivered, ?_⟩
  rw [hlines]
  decide +kernel

end ChirpGateway
