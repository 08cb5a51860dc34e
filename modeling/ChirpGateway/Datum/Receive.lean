import ChirpGateway.Datum.Header
import ChirpGateway.Lib.Transition

/-!
# Receiving messages of the server

The state machine of `datum_protocol_client` that reads headers and bodies off the
socket (`datum_protocol.c:1828-1963`). One pass is one turn of its loop in which
the socket is reported readable. A pass calls `recv` at most twice, and each call
gets as many bytes as the socket has ready, or none.
-/

namespace ChirpGateway

open ChainedCodec Transition Wire

/-- What `datum_protocol_server_msg` is called with. -/
structure ServerFrame where
  header : DatumHeader
  body : List UInt8
  deriving DecidableEq

/-- The header states the length of the body. -/
def ServerFrame.WellFormed (frame : ServerFrame) : Prop :=
  frame.header.cmdLen = frame.body.length

instance (frame : ServerFrame) : Decidable frame.WellFormed :=
  inferInstanceAs (Decidable (_ = _))

/-- Why the loop is left. -/
inductive CloseReason where
  /-- "recv() issue. too many bytes" -/
  | framing
  /-- `datum_protocol_server_msg` returned less than zero -/
  | message
  deriving DecidableEq

/-- The variables of the state machine. `sHeader` are the bytes of `s_header` that
    are there. The last three are not in the source: the bytes that the server sent
    and that are not received, those that are, and the calls of
    `datum_protocol_server_msg`. -/
structure ReceiveState where
  protocolState : Nat
  sHeader : List UInt8
  header : DatumHeader
  receivingHeaderKey : UInt32
  serverRecvBuffer : List UInt8
  closed : Option CloseReason
  incoming : List UInt8
  received : List UInt8
  calls : List ServerFrame
  deriving DecidableEq

/-- `recv` of at most `want` bytes: none is `EWOULDBLOCK`, otherwise one more byte
    than the answer says, as far as there are. -/
def recv (want : Nat) (answer : Option Nat) (incoming : List UInt8) : List UInt8 :=
  match answer with
  | none => []
  | some more => incoming.take (min (more + 1) want)

namespace ReceiveState

variable (accepts : List ServerFrame → Bool) (s : ReceiveState)

/-- These bytes are received. -/
def take (bytes : List UInt8) : ReceiveState :=
  { s with incoming := s.incoming.drop bytes.length, received := s.received ++ bytes }

/-- `datum_protocol_server_msg` on what is in the buffer. -/
def serverMsg : ReceiveState :=
  let calls := s.calls ++ [{ header := s.header, body := s.serverRecvBuffer }]
  if accepts calls then { s with calls, protocolState := 0, serverRecvBuffer := [] }
  else { s with calls, closed := some .message }

/-- State 5. -/
def receiveBody (answer : Option Nat) : ReceiveState :=
  if s.serverRecvBuffer.length < s.header.cmdLen then
    let bytes := recv (s.header.cmdLen - s.serverRecvBuffer.length) answer s.incoming
    if bytes.isEmpty then s
    else if bytes.length + s.serverRecvBuffer.length > s.header.cmdLen then
      { s.take bytes with closed := some .framing }
    else if s.serverRecvBuffer.length + bytes.length < s.header.cmdLen then
      { s.take bytes with serverRecvBuffer := s.serverRecvBuffer ++ bytes }
    else
      serverMsg accepts { s.take bytes with serverRecvBuffer := s.serverRecvBuffer ++ bytes }
  else
    serverMsg accepts s

/-- The header is unmasked and the key moves on. -/
def unmasked : ReceiveState :=
  { s with
    header := unmaskHeader s.receivingHeaderKey s.sHeader
    receivingHeaderKey := headerXorFeedback s.receivingHeaderKey
    protocolState := 5
    serverRecvBuffer := [] }

/-- State 4. -/
def startBody (answer : Option Nat) : ReceiveState :=
  let s := s.unmasked
  if s.header.cmdLen = 0 then s.receiveBody accepts none
  else
    let bytes := recv s.header.cmdLen answer s.incoming
    if bytes.isEmpty then s
    else if bytes.length > s.header.cmdLen then { s.take bytes with closed := some .framing }
    else if bytes.length < s.header.cmdLen then { s.take bytes with serverRecvBuffer := bytes }
    else receiveBody accepts { s.take bytes with serverRecvBuffer := bytes } none

/-- State 0, which goes on to state 4 with a whole header. -/
def startHeader (first second : Option Nat) : ReceiveState :=
  let bytes := recv 4 first s.incoming
  if bytes.isEmpty then s
  else if bytes.length ≠ 4 then
    if bytes.length > 4 then { s.take bytes with closed := some .framing }
    else { s.take bytes with sHeader := bytes, protocolState := 4 - bytes.length }
  else
    startBody accepts { s.take bytes with sHeader := bytes, protocolState := 4 } second

/-- States 1 to 3: so many bytes of the header are missing. State 4 is left for the
    next turn of the loop. -/
def continueHeader (answer : Option Nat) : ReceiveState :=
  let bytes := recv s.protocolState answer s.incoming
  if bytes.isEmpty then s
  else if bytes.length + (4 - s.protocolState) ≠ 4 then
    if bytes.length + s.protocolState > 4 then { s.take bytes with closed := some .framing }
    else
      { s.take bytes with
        sHeader := s.sHeader ++ bytes
        protocolState := 4 - bytes.length - (4 - s.protocolState) }
  else
    { s.take bytes with sHeader := s.sHeader ++ bytes, protocolState := 4 }

/-- One turn of the loop with the answers of its calls of `recv`. -/
def pass (answers : Option Nat × Option Nat) : Option ReceiveState :=
  if s.closed.isSome then none
  else if s.protocolState = 0 then some (s.startHeader accepts answers.1 answers.2)
  else if s.protocolState ≤ 3 then some (s.continueHeader answers.1)
  else if s.protocolState = 4 then some (s.startBody accepts answers.1)
  else if s.protocolState = 5 then some (s.receiveBody accepts answers.1)
  else some { s with closed := some .framing }

end ReceiveState

/-- `accepts` tells of the calls so far whether the last one was answered with zero
    or more. -/
def receiveSystem (accepts : List ServerFrame → Bool) :
    System ReceiveState (Option Nat × Option Nat) where
  step := ReceiveState.pass accepts

/-! ## The stream -/

/-- A frame as the server writes it. -/
def serverFrame : Codec UInt32 ServerFrame where
  encode key frame := maskedHeader key frame.header ++ frame.body
  decode key bytes :=
    (readBytes 4 bytes).bind fun fields =>
      (readBytes (unmaskHeader key fields.1).cmdLen fields.2).map fun rest =>
        ({ header := unmaskHeader key fields.1, body := rest.1 }, rest.2)
  next := headerXorFeedback

/-- Nothing has been received of these frames. -/
structure ReceiveState.Fresh (key : UInt32) (frames : List ServerFrame) (s : ReceiveState) :
    Prop where
  protocolState : s.protocolState = 0
  receivingHeaderKey : s.receivingHeaderKey = key
  closed : s.closed = none
  incoming : s.incoming = serverFrame.encodeAll key frames
  received : s.received = []
  calls : s.calls = []

/-- The connection is not dropped because of the framing, and the calls so far are
    the frames whose last byte has been received. -/
structure ReceiveState.HandsOver (key : UInt32) (frames : List ServerFrame) (s : ReceiveState) :
    Prop where
  not_dropped : s.closed ≠ some .framing
  received : s.received <+: serverFrame.encodeAll key frames
  calls : s.calls <+: frames
  whole : (serverFrame.encodeAll key s.calls).length ≤ s.received.length
  all : ∀ frame, s.calls ++ [frame] <+: frames →
    s.received.length < (serverFrame.encodeAll key (s.calls ++ [frame])).length

/-- The pass does not receive the second and third byte of a header together, behind
    the first alone, and does not complete a header for which there is no body. -/
def ReceiveState.splitsWell (s : ReceiveState) (answers : Option Nat × Option Nat) : Bool :=
  let bytes := recv s.protocolState answers.1 s.incoming
  !(s.protocolState = 3 && bytes.length = 2) &&
    !(0 < s.protocolState && s.protocolState ≤ 3 && bytes.length = s.protocolState &&
      (unmaskHeader s.receivingHeaderKey (s.sHeader ++ bytes)).cmdLen = 0)

/-! ## What one pass does -/

/-- Where the state machine is, before the frames `todo` under this key. -/
inductive ReceiveState.Place (key : UInt32) (todo : List ServerFrame) (s : ReceiveState) :
    Prop where
  | fresh : s.closed = none → s.protocolState = 0 → s.receivingHeaderKey = key →
      s.incoming = serverFrame.encodeAll key todo → Place key todo s
  | inHeader : s.closed = none → 0 < s.protocolState → 0 < s.sHeader.length →
      s.protocolState + s.sHeader.length = 4 → s.receivingHeaderKey = key →
      s.sHeader ++ s.incoming = serverFrame.encodeAll key todo → Place key todo s
  | behindHeader (frame : ServerFrame) (rest : List ServerFrame) : todo = frame :: rest →
      s.closed = none → s.protocolState = 4 → s.receivingHeaderKey = key →
      s.sHeader = maskedHeader key frame.header → frame.body ≠ [] →
      s.incoming = frame.body ++ serverFrame.encodeAll (headerXorFeedback key) rest →
      Place key todo s
  | inBody (frame : ServerFrame) (rest : List ServerFrame) : todo = frame :: rest →
      s.closed = none → s.protocolState = 5 → s.receivingHeaderKey = headerXorFeedback key →
      s.header = frame.header → s.serverRecvBuffer.length < frame.body.length →
      s.serverRecvBuffer ++ s.incoming =
        frame.body ++ serverFrame.encodeAll (headerXorFeedback key) rest → Place key todo s
  | rejected : s.closed = some .message → s.incoming = serverFrame.encodeAll key todo →
      Place key todo s

/-- The frames that were handed over and the ones before which the state machine
    is. -/
structure ReceiveState.Between (key : UInt32) (frames done todo : List ServerFrame)
    (s : ReceiveState) : Prop where
  split : frames = done ++ todo
  calls : s.calls = done
  bytes : s.received ++ s.incoming = serverFrame.encodeAll key frames
  place : s.Place (headerXorFeedback^[done.length] key) todo

section Pass

variable {key : UInt32} {frames done todo rest : List ServerFrame} {frame : ServerFrame}
variable {accepts : List ServerFrame → Bool} {s s' : ReceiveState} {answer : Option Nat}

theorem recv_isFront (want : Nat) (answer : Option Nat) (incoming : List UInt8) :
    recv want answer incoming <+: incoming := by
  cases answer with
  | none => exact List.nil_prefix
  | some more => exact List.take_prefix _ _

theorem length_recv_le (want : Nat) (answer : Option Nat) (incoming : List UInt8) :
    (recv want answer incoming).length ≤ want := by
  cases answer with
  | none => exact Nat.zero_le _
  | some more => exact Nat.le_trans (List.length_take_le _ _) (Nat.min_le_right _ _)

/-- What is received and what is left are the bytes that were coming in. -/
theorem take_of_isFront {bytes : List UInt8} (h : bytes <+: s.incoming) :
    bytes ++ (s.take bytes).incoming = s.incoming := by
  obtain ⟨rest, hrest⟩ := h
  show bytes ++ s.incoming.drop bytes.length = s.incoming
  rw [← hrest, List.drop_left]

theorem bytes_take {bytes : List UInt8} (h : bytes <+: s.incoming) :
    (s.take bytes).received ++ (s.take bytes).incoming = s.received ++ s.incoming := by
  rw [← take_of_isFront h]
  exact List.append_assoc _ _ _

theorem serverFrame_encode (key : UInt32) (frame : ServerFrame) :
    serverFrame.encode key frame = maskedHeader key frame.header ++ frame.body := by
  rw [serverFrame]

theorem serverFrame_next : serverFrame.next = headerXorFeedback := by
  rw [serverFrame]

theorem encodeAll_serverFrame_cons (key : UInt32) (frame : ServerFrame) (rest : List ServerFrame) :
    serverFrame.encodeAll key (frame :: rest) =
      maskedHeader key frame.header ++
        (frame.body ++ serverFrame.encodeAll (headerXorFeedback key) rest) := by
  rw [Codec.encodeAll, serverFrame_encode, serverFrame_next, List.append_assoc]

/-- What stays the same in a pass: the frames before the one that is read. -/
structure ReceiveState.Reading (key : UInt32) (frames done rest : List ServerFrame)
    (frame : ServerFrame) (s : ReceiveState) : Prop where
  split : frames = done ++ frame :: rest
  wellFormed : frame.WellFormed
  calls : s.calls = done
  bytes : s.received ++ s.incoming = serverFrame.encodeAll key frames
  closed : s.closed = none

/-- The state machine is in the body of the frame. -/
structure ReceiveState.InBody (key : UInt32) (frames done rest : List ServerFrame)
    (frame : ServerFrame) (s : ReceiveState) : Prop
    extends s.Reading key frames done rest frame where
  protocolState : s.protocolState = 5
  header : s.header = frame.header
  receivingHeaderKey : s.receivingHeaderKey = headerXorFeedback^[done.length + 1] key
  length_le : s.serverRecvBuffer.length ≤ frame.body.length
  buffer : s.serverRecvBuffer ++ s.incoming =
    frame.body ++ serverFrame.encodeAll (headerXorFeedback^[done.length + 1] key) rest

theorem ReceiveState.InBody.between_of_lt (h : s.InBody key frames done rest frame)
    (hlt : s.serverRecvBuffer.length < frame.body.length) :
    s.Between key frames done (frame :: rest) := by
  refine ⟨h.split, h.calls, h.bytes, ?_⟩
  have hkey := h.receivingHeaderKey
  have hbuffer := h.buffer
  rw [Function.iterate_succ_apply'] at hkey hbuffer
  exact .inBody frame rest rfl h.closed h.protocolState hkey h.header hlt hbuffer

/-- The whole frame is in the buffer: it is handed over. -/
theorem ReceiveState.InBody.between_serverMsg (h : s.InBody key frames done rest frame)
    (heq : s.serverRecvBuffer.length = frame.body.length) :
    (s.serverMsg accepts).Between key frames (done ++ [frame]) rest := by
  obtain ⟨hbuffer, hincoming⟩ := List.append_inj h.buffer heq
  have hsplit : frames = (done ++ [frame]) ++ rest := by
    rw [h.split, List.append_assoc, List.singleton_append]
  have hlen : (done ++ [frame]).length = done.length + 1 := by
    rw [List.length_append, List.length_singleton]
  have hframe : { header := s.header, body := s.serverRecvBuffer } = frame := by
    rw [h.header, hbuffer]
  rw [ReceiveState.serverMsg]
  simp only [h.calls, hframe]
  split
  · refine ⟨hsplit, rfl, h.bytes, ?_⟩
    rw [hlen]
    exact .fresh h.closed rfl h.receivingHeaderKey hincoming
  · refine ⟨hsplit, rfl, h.bytes, ?_⟩
    rw [hlen]
    exact .rejected rfl hincoming

theorem ReceiveState.InBody.take (h : s.InBody key frames done rest frame) {bytes : List UInt8}
    (hfront : bytes <+: s.incoming)
    (hlen : (s.serverRecvBuffer ++ bytes).length ≤ frame.body.length) :
    ReceiveState.InBody key frames done rest frame
      { s.take bytes with serverRecvBuffer := s.serverRecvBuffer ++ bytes } where
  split := h.split
  wellFormed := h.wellFormed
  calls := h.calls
  bytes := (bytes_take hfront).trans h.bytes
  closed := h.closed
  protocolState := h.protocolState
  header := h.header
  receivingHeaderKey := h.receivingHeaderKey
  length_le := hlen
  buffer := by
    rw [← h.buffer, ← take_of_isFront hfront, List.append_assoc]

theorem ReceiveState.InBody.receiveBody (h : s.InBody key frames done rest frame) :
    ∃ done' todo', (s.receiveBody accepts answer).Between key frames done' todo' := by
  have hcmdLen : s.header.cmdLen = frame.body.length := by
    rw [h.header]
    exact h.wellFormed
  simp only [ReceiveState.receiveBody, hcmdLen]
  split
  · next hlt =>
    have hfront := recv_isFront (frame.body.length - s.serverRecvBuffer.length) answer s.incoming
    have hle := length_recv_le (frame.body.length - s.serverRecvBuffer.length) answer s.incoming
    generalize recv (frame.body.length - s.serverRecvBuffer.length) answer s.incoming = bytes
      at hfront hle ⊢
    have htake := h.take hfront (by rw [List.length_append]; omega)
    rw [if_neg (show ¬ bytes.length + s.serverRecvBuffer.length > frame.body.length by omega)]
    split
    · exact ⟨_, _, h.between_of_lt hlt⟩
    · split
      · next hmore =>
        refine ⟨_, _, htake.between_of_lt ?_⟩
        rwa [List.length_append]
      · next hwhole =>
        refine ⟨_, _, htake.between_serverMsg ?_⟩
        rw [List.length_append]
        omega
  · next hwhole =>
    exact ⟨_, _, h.between_serverMsg (Nat.le_antisymm h.length_le (Nat.not_lt.mp hwhole))⟩

/-- The header of the frame is there, masked. -/
structure ReceiveState.BehindHeader (key : UInt32) (frames done rest : List ServerFrame)
    (frame : ServerFrame) (s : ReceiveState) : Prop
    extends s.Reading key frames done rest frame where
  receivingHeaderKey : s.receivingHeaderKey = headerXorFeedback^[done.length] key
  sHeader : s.sHeader = maskedHeader (headerXorFeedback^[done.length] key) frame.header
  incoming : s.incoming =
    frame.body ++ serverFrame.encodeAll (headerXorFeedback^[done.length + 1] key) rest

theorem ReceiveState.BehindHeader.unmasked (h : s.BehindHeader key frames done rest frame) :
    s.unmasked.InBody key frames done rest frame where
  split := h.split
  wellFormed := h.wellFormed
  calls := h.calls
  bytes := h.bytes
  closed := h.closed
  protocolState := rfl
  header := by
    rw [ReceiveState.unmasked, h.receivingHeaderKey, h.sHeader, unmaskHeader_maskedHeader]
  receivingHeaderKey := by
    rw [ReceiveState.unmasked, h.receivingHeaderKey, Function.iterate_succ_apply']
  length_le := Nat.zero_le _
  buffer := h.incoming

theorem ReceiveState.BehindHeader.startBody (h : s.BehindHeader key frames done rest frame) :
    ∃ done' todo', (s.startBody accepts answer).Between key frames done' todo' := by
  have hbody := h.unmasked
  have hempty : s.unmasked.serverRecvBuffer = [] := rfl
  have hcmdLen : s.unmasked.header.cmdLen = frame.body.length := by
    rw [hbody.header]
    exact h.wellFormed
  simp only [ReceiveState.startBody, hcmdLen]
  generalize s.unmasked = s at hbody hempty ⊢
  split
  · exact hbody.receiveBody
  · next hsome =>
    have hfront := recv_isFront frame.body.length answer s.incoming
    have hle := length_recv_le frame.body.length answer s.incoming
    generalize recv frame.body.length answer s.incoming = bytes at hfront hle ⊢
    have htake := hbody.take hfront (by rwa [hempty, List.nil_append])
    rw [hempty, List.nil_append] at htake
    rw [if_neg (Nat.not_lt.mpr hle)]
    split
    · refine ⟨_, _, hbody.between_of_lt ?_⟩
      rw [hempty]
      exact Nat.pos_of_ne_zero hsome
    · split
      · next hmore => exact ⟨_, _, htake.between_of_lt hmore⟩
      · exact htake.receiveBody

/-- Where the bytes of a frame come in, the frame is there. -/
theorem exists_frame_of_append {bytes incoming : List UInt8} (hbytes : bytes ≠ [])
    (h : bytes ++ incoming = serverFrame.encodeAll key todo) :
    ∃ frame rest, todo = frame :: rest := by
  cases todo with
  | nil => exact absurd (List.append_eq_nil_iff.mp h).1 hbytes
  | cons frame rest => exact ⟨frame, rest, rfl⟩

/-- The first four bytes are the header. -/
theorem behindHeader_of_append {bytes incoming : List UInt8} (hlen : bytes.length = 4)
    (h : bytes ++ incoming = serverFrame.encodeAll key (frame :: rest)) :
    bytes = maskedHeader key frame.header ∧
      incoming = frame.body ++ serverFrame.encodeAll (headerXorFeedback key) rest := by
  rw [encodeAll_serverFrame_cons] at h
  exact List.append_inj h (by rw [hlen, length_maskedHeader])

theorem ReceiveState.Between.startHeader {first second : Option Nat}
    (h : s.Between key frames done todo) (hframes : ∀ frame ∈ frames, frame.WellFormed)
    (hclosed : s.closed = none) (hkey : s.receivingHeaderKey = headerXorFeedback^[done.length] key)
    (hincoming : s.incoming = serverFrame.encodeAll (headerXorFeedback^[done.length] key) todo) :
    ∃ done' todo', (s.startHeader accepts first second).Between key frames done' todo' := by
  have hfront := recv_isFront 4 first s.incoming
  have hle := length_recv_le 4 first s.incoming
  simp only [ReceiveState.startHeader]
  generalize recv 4 first s.incoming = bytes at hfront hle ⊢
  have htake := take_of_isFront hfront
  rw [hincoming] at htake
  split
  · exact ⟨_, _, h⟩
  · next hsome =>
    have hne : bytes ≠ [] := fun hnil => hsome (List.isEmpty_iff.mpr hnil)
    have hpos := List.length_pos_iff.mpr hne
    split
    · next hpart =>
      rw [if_neg (Nat.not_lt.mpr hle)]
      refine ⟨_, _, h.split, h.calls, (bytes_take hfront).trans h.bytes, ?_⟩
      refine .inHeader hclosed ?_ hpos ?_ hkey htake
      · show 0 < 4 - bytes.length
        omega
      · show 4 - bytes.length + bytes.length = 4
        omega
    · next hwhole =>
      obtain ⟨frame, rest, rfl⟩ := exists_frame_of_append hne htake
      obtain ⟨hmasked, hbody⟩ := behindHeader_of_append (not_not.mp hwhole) htake
      have hbehind : ReceiveState.BehindHeader key frames done rest frame
          { s.take bytes with sHeader := bytes, protocolState := 4 } := by
        refine ⟨⟨h.split, ?_, h.calls, (bytes_take hfront).trans h.bytes, hclosed⟩, hkey,
          hmasked,
          ?_⟩
        · exact hframes frame (h.split ▸ List.mem_append_cons_self)
        · rw [Function.iterate_succ_apply']
          exact hbody
      exact hbehind.startBody

theorem ReceiveState.Between.continueHeader {second : Option Nat}
    (h : s.Between key frames done todo) (hframes : ∀ frame ∈ frames, frame.WellFormed)
    (hclosed : s.closed = none) (hstate : 0 < s.protocolState)
    (hlen : 0 < s.sHeader.length) (hmissing : s.protocolState + s.sHeader.length = 4)
    (hkey : s.receivingHeaderKey = headerXorFeedback^[done.length] key)
    (hincoming : s.sHeader ++ s.incoming =
      serverFrame.encodeAll (headerXorFeedback^[done.length] key) todo)
    (hwell : s.splitsWell (answer, second) = true) :
    ∃ done' todo', (s.continueHeader answer).Between key frames done' todo' := by
  have hfront := recv_isFront s.protocolState answer s.incoming
  have hle := length_recv_le s.protocolState answer s.incoming
  simp only [ReceiveState.splitsWell, Bool.and_eq_true, Bool.not_eq_true',
    Bool.and_eq_false_imp, decide_eq_true_eq, decide_eq_false_iff_not] at hwell
  obtain ⟨hpair, hbodyless⟩ := hwell
  simp only [ReceiveState.continueHeader]
  generalize recv s.protocolState answer s.incoming = bytes at hfront hle hpair hbodyless ⊢
  have htake := take_of_isFront hfront
  rw [← htake, ← List.append_assoc] at hincoming
  split
  · exact ⟨_, _, h⟩
  · next hsome =>
    have hpos : 0 < bytes.length :=
      List.length_pos_iff.mpr fun hnil => hsome (List.isEmpty_iff.mpr hnil)
    split
    · next hpart =>
      -- two bytes at once behind the first would be dropped
      have hfew : ¬ bytes.length + s.protocolState > 4 := by
        intro hmany
        exact hpair (by omega) (by omega)
      rw [if_neg hfew]
      refine ⟨_, _, h.split, h.calls, (bytes_take hfront).trans h.bytes, ?_⟩
      refine .inHeader hclosed ?_ ?_ ?_ hkey hincoming
      · show 0 < 4 - bytes.length - (4 - s.protocolState)
        omega
      · show 0 < (s.sHeader ++ bytes).length
        rw [List.length_append]
        omega
      · show 4 - bytes.length - (4 - s.protocolState) + (s.sHeader ++ bytes).length = 4
        rw [List.length_append]
        omega
    · next hwhole =>
      have hfour : (s.sHeader ++ bytes).length = 4 := by
        rw [List.length_append]
        omega
      have hne : s.sHeader ++ bytes ≠ [] := List.ne_nil_of_length_pos (by omega)
      obtain ⟨frame, rest, rfl⟩ := exists_frame_of_append hne hincoming
      obtain ⟨hmasked, hbody⟩ := behindHeader_of_append hfour hincoming
      have hframe : frame.WellFormed := hframes frame (h.split ▸ List.mem_append_cons_self)
      refine ⟨_, _, h.split, h.calls, (bytes_take hfront).trans h.bytes, ?_⟩
      refine .behindHeader frame rest rfl hclosed rfl hkey hmasked ?_ hbody
      intro hnobody
      apply hbodyless
      · exact ⟨⟨hstate, by omega⟩, by omega⟩
      · rw [hkey, hmasked, unmaskHeader_maskedHeader, hframe, hnobody, List.length_nil]

theorem ReceiveState.Between.pass {answers : Option Nat × Option Nat}
    (h : s.Between key frames done todo) (hframes : ∀ frame ∈ frames, frame.WellFormed)
    (hwell : s.splitsWell answers = true) (hpass : s.pass accepts answers = some s') :
    ∃ done' todo', s'.Between key frames done' todo' := by
  simp only [ReceiveState.pass] at hpass
  cases h.place with
  | fresh hclosed hstate hkey hincoming =>
    rw [hclosed, Option.isSome_none, if_neg Bool.false_ne_true, if_pos hstate] at hpass
    rw [← Option.some.inj hpass]
    exact h.startHeader hframes hclosed hkey hincoming
  | inHeader hclosed hstate hlen hmissing hkey hincoming =>
    rw [hclosed, Option.isSome_none, if_neg Bool.false_ne_true, if_neg (by omega),
      if_pos (by omega)] at hpass
    rw [← Option.some.inj hpass]
    exact h.continueHeader hframes hclosed hstate hlen hmissing hkey hincoming hwell
  | behindHeader frame rest htodo hclosed hstate hkey hmasked _ hincoming =>
    rw [hclosed, Option.isSome_none, if_neg Bool.false_ne_true, if_neg (by omega),
      if_neg (by omega), if_pos hstate] at hpass
    rw [← Option.some.inj hpass]
    have hsplit := h.split
    rw [htodo] at hsplit
    have hframe : frame.WellFormed := hframes frame (hsplit ▸ List.mem_append_cons_self)
    rw [← Function.iterate_succ_apply' headerXorFeedback] at hincoming
    have hbehind : s.BehindHeader key frames done rest frame :=
      ⟨⟨hsplit, hframe, h.calls, h.bytes, hclosed⟩, hkey, hmasked, hincoming⟩
    exact hbehind.startBody
  | inBody frame rest htodo hclosed hstate hkey hheader hlt hbuffer =>
    rw [hclosed, Option.isSome_none, if_neg Bool.false_ne_true, if_neg (by omega),
      if_neg (by omega), if_neg (by omega), if_pos hstate] at hpass
    rw [← Option.some.inj hpass]
    have hsplit := h.split
    rw [htodo] at hsplit
    have hframe : frame.WellFormed := hframes frame (hsplit ▸ List.mem_append_cons_self)
    rw [← Function.iterate_succ_apply' headerXorFeedback] at hkey hbuffer
    have hbody : s.InBody key frames done rest frame :=
      ⟨⟨hsplit, hframe, h.calls, h.bytes, hclosed⟩, hstate, hheader, hkey, Nat.le_of_lt hlt,
        hbuffer⟩
    exact hbody.receiveBody
  | rejected hclosed _ =>
    rw [hclosed, Option.isSome_some, if_pos rfl] at hpass
    cases hpass

/-- Less than a whole frame of what comes next has been received. -/
theorem ReceiveState.Place.length_incoming (h : s.Place key todo) :
    s.incoming.length ≤ (serverFrame.encodeAll key todo).length ∧
      ∀ frame rest, todo = frame :: rest →
        (serverFrame.encodeAll (headerXorFeedback key) rest).length < s.incoming.length := by
  have hcons (frame : ServerFrame) (rest : List ServerFrame) :
      (serverFrame.encodeAll key (frame :: rest)).length = 4 + (frame.body.length +
        (serverFrame.encodeAll (headerXorFeedback key) rest).length) := by
    rw [encodeAll_serverFrame_cons, List.length_append, List.length_append, length_maskedHeader]
  cases h with
  | fresh _ _ _ hincoming =>
    rw [hincoming]
    refine ⟨Nat.le_refl _, ?_⟩
    rintro frame rest rfl
    rw [hcons]
    omega
  | inHeader _ hstate _ hmissing _ hincoming =>
    have hlen := congrArg List.length hincoming
    rw [List.length_append] at hlen
    refine ⟨by omega, ?_⟩
    rintro frame rest rfl
    rw [hcons] at hlen
    omega
  | behindHeader frame rest htodo _ _ _ _ hbody hincoming =>
    have hpos := List.length_pos_iff.mpr hbody
    have hlen := congrArg List.length hincoming
    rw [List.length_append] at hlen
    rw [htodo, hcons]
    refine ⟨by omega, ?_⟩
    rintro other others heq
    obtain ⟨-, rfl⟩ := List.cons.inj heq
    omega
  | inBody frame rest htodo _ _ _ _ hlt hbuffer =>
    have hlen := congrArg List.length hbuffer
    rw [List.length_append, List.length_append] at hlen
    rw [htodo, hcons]
    refine ⟨by omega, ?_⟩
    rintro other others heq
    obtain ⟨-, rfl⟩ := List.cons.inj heq
    omega
  | rejected _ hincoming =>
    rw [hincoming]
    refine ⟨Nat.le_refl _, ?_⟩
    rintro frame rest rfl
    rw [hcons]
    omega

theorem ReceiveState.Place.not_dropped (h : s.Place key todo) : s.closed ≠ some .framing := by
  have hclosed : s.closed = none ∨ s.closed = some .message := by
    cases h with
    | fresh hclosed => exact Or.inl hclosed
    | inHeader hclosed => exact Or.inl hclosed
    | behindHeader _ _ _ hclosed => exact Or.inl hclosed
    | inBody _ _ _ hclosed => exact Or.inl hclosed
    | rejected hclosed => exact Or.inr hclosed
  rcases hclosed with hclosed | hclosed
  · rw [hclosed]
    exact nofun
  · rw [hclosed]
    exact nofun

theorem ReceiveState.Between.handsOver (h : s.Between key frames done todo) :
    s.HandsOver key frames := by
  obtain ⟨hle, hlt⟩ := h.place.length_incoming
  have hstream : serverFrame.encodeAll key frames = serverFrame.encodeAll key done ++
      serverFrame.encodeAll (headerXorFeedback^[done.length] key) todo := by
    rw [h.split, Codec.encodeAll_append, serverFrame_next]
  have hlen := congrArg List.length (h.bytes.trans hstream)
  rw [List.length_append, List.length_append] at hlen
  refine ⟨h.place.not_dropped, ⟨s.incoming, h.bytes⟩, ?_, ?_, ?_⟩
  · rw [h.calls, h.split]
    exact List.prefix_append _ _
  · rw [h.calls]
    omega
  · intro frame hframe
    rw [h.calls, h.split, List.prefix_append_right_inj] at hframe
    obtain ⟨rest, hrest⟩ := hframe
    have hshort := hlt frame rest hrest.symm
    rw [← hrest, List.singleton_append, encodeAll_serverFrame_cons, List.length_append,
      List.length_append] at hlen
    rw [h.calls, Codec.encodeAll_concat, serverFrame_next, serverFrame_encode, List.length_append,
      List.length_append]
    omega

/-- However the stream is cut into pieces, as long as no pass receives the middle of
    a header alone or completes a header for which there is no body. -/
theorem handsOver_of_splitsWell (accepts : List ServerFrame → Bool)
    (hframes : ∀ frame ∈ frames, frame.WellFormed)
    (hrun : (receiveSystem accepts).ReachedBy (fun s answers => s.splitsWell answers = true)
      (ReceiveState.Fresh key frames) s) : s.HandsOver key frames := by
  have hbetween : ∃ done todo, s.Between key frames done todo := by
    apply hrun.invariant
    · intro start h
      refine ⟨[], frames, rfl, h.calls, ?_, ?_⟩
      · rw [h.received, h.incoming, List.nil_append]
      · exact .fresh h.closed h.protocolState h.receivingHeaderKey h.incoming
    · rintro before answers after ⟨done, todo, h⟩ hwell hpass
      exact h.pass hframes hwell hpass
  obtain ⟨done, todo, h⟩ := hbetween
  exact h.handsOver

end Pass

/-! ## Two cuts -/

/-- A session in which these frames come. -/
def listeningState (frames : List ServerFrame) : ReceiveState where
  protocolState := 0
  sHeader := []
  header := DatumHeader.ofNat 0
  receivingHeaderKey := 7
  serverRecvBuffer := []
  closed := none
  incoming := serverFrame.encodeAll 7 frames
  received := []
  calls := []

theorem listeningState_fresh (frames : List ServerFrame) :
    (listeningState frames).Fresh 7 frames := ⟨rfl, rfl, rfl, rfl, rfl, rfl⟩

/-- A mining command with this body. -/
def commandFrame (body : List UInt8) : ServerFrame where
  header := DatumHeader.ofNat (body.length + 2 ^ 27 * 5)
  body

/-- A ping without a body, and a command. -/
def pingAndCommand : List ServerFrame :=
  [{ header := DatumHeader.ofNat (2 ^ 27), body := [] }, commandFrame [0x11, 1, 2]]

theorem pingAndCommand_wellFormed : ∀ frame ∈ pingAndCommand, frame.WellFormed := by
  intro frame hframe
  simp only [pingAndCommand, List.mem_cons, List.not_mem_nil, or_false] at hframe
  rcases hframe with rfl | rfl <;> decide +kernel

/-- Cut so, both are handed over. -/
theorem exists_pieces_handedOver : ∃ s, s.calls = pingAndCommand ∧
    (receiveSystem fun _ => true).ReachedBy (fun s answers => s.splitsWell answers = true)
      (ReceiveState.Fresh 7 pingAndCommand) s ∧
    s.HandsOver 7 pingAndCommand := by
  obtain ⟨s, hrun, hcalls⟩ := System.exists_reachedBy_of_replay (receiveSystem fun _ => true)
    (listeningState_fresh pingAndCommand) ReceiveState.splitsWell
    [(some 3, none), (some 0, none), (some 0, none), (none, none), (some 1, none), (some 1, none),
      (none, none), (some 0, none)]
    (fun s => s.calls = pingAndCommand) (fun _ _ hwell => hwell) (by decide +kernel)
  exact ⟨s, of_decide_eq_true hcalls, hrun,
    handsOver_of_splitsWell _ pingAndCommand_wellFormed hrun⟩

/-- The header of a command comes as one byte and two: the connection is dropped. -/
theorem exists_pieces_dropped : ∃ s,
    (receiveSystem fun _ => true).Reachable (ReceiveState.Fresh 7 [commandFrame [0x11]]) s ∧
    s.closed = some .framing ∧ ¬ s.HandsOver 7 [commandFrame [0x11]] := by
  obtain ⟨s, hrun, hclosed⟩ := System.exists_reachedBy_of_replay (receiveSystem fun _ => true)
    (listeningState_fresh [commandFrame [0x11]]) (fun _ _ => true)
    [(some 0, none), (some 1, none)] (fun s => s.closed = some .framing)
    (fun _ _ _ => trivial) (by decide +kernel)
  have hdropped := of_decide_eq_true hclosed
  exact ⟨s, hrun, hdropped, fun h => h.not_dropped hdropped⟩

/-- The header of a ping comes in two pieces: every byte is received, and the ping
    waits for the next ones. -/
theorem exists_pieces_delayed : ∃ s,
    (receiveSystem fun _ => true).Reachable (ReceiveState.Fresh 7 (pingAndCommand.take 1)) s ∧
    s.received = serverFrame.encodeAll 7 (pingAndCommand.take 1) ∧ s.calls = [] := by
  obtain ⟨s, hrun, hend⟩ := System.exists_reachedBy_of_replay (receiveSystem fun _ => true)
    (listeningState_fresh (pingAndCommand.take 1)) (fun _ _ => true)
    [(some 1, none), (some 1, none)]
    (fun s => decide (s.received = serverFrame.encodeAll 7 (pingAndCommand.take 1) ∧
      s.calls = []))
    (fun _ _ _ => trivial) (by decide +kernel)
  exact ⟨s, hrun, of_decide_eq_true hend⟩

end ChirpGateway
