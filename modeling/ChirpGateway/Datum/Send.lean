import ChirpGateway.Datum.Header
import ChirpGateway.Lib.Transition

/-!
# Sending mining commands

`datum_protocol_mining_cmd` with `datum_protocol_chars_to_server`
(`datum_protocol.c:209-267`), called by several threads, while the protocol thread
hands the buffer to the socket (`datum_protocol.c:1741-1762`). The encryption is
the library's; what is relied on is that it adds sixteen bytes and is undone under
the same nonce.
-/

namespace ChirpGateway

open ChainedCodec Transition Wire

/-- `DATUM_PROTOCOL_BUFFER_SIZE`. -/
def datumProtocolBufferSize : Nat := 3 * 2 ^ 22

/-- `crypto_box_MACBYTES`. -/
def cryptoBoxMacbytes : Nat := 16

/-- The words of a nonce of `crypto_box_NONCEBYTES`. -/
abbrev SessionNonce := List UInt32

/-- `datum_increment_session_nonce`. -/
def incrementSessionNonce : SessionNonce → SessionNonce
  | [] => []
  | x :: xs => if x + 1 = 0 then (x + 1) :: incrementSessionNonce xs else (x + 1) :: xs

/-- `crypto_box_easy_afternm` and `crypto_box_open_easy_afternm` under the keys of
    the session. -/
structure SessionBox where
  easyAfternm : SessionNonce → List UInt8 → List UInt8
  openEasyAfternm : SessionNonce → List UInt8 → Option (List UInt8)
  length_easyAfternm : ∀ nonce data,
    (easyAfternm nonce data).length = data.length + cryptoBoxMacbytes
  open_easyAfternm : ∀ nonce data, openEasyAfternm nonce (easyAfternm nonce data) = some data

/-! ## The functions -/

/-- `datum_protocol_chars_to_server`; `none` where it returns less than one. -/
def charsToServer (outBuf s : List UInt8) : Option (List UInt8) :=
  if s.isEmpty then none
  else if outBuf.length + s.length ≥ datumProtocolBufferSize then none
  else some (outBuf ++ s)

/-- The header of a mining command. The length is cut to its 22 bits. -/
def miningCmdHeader (len : Nat) : DatumHeader where
  cmdLen := (len + cryptoBoxMacbytes) % 2 ^ 22
  reserved := 0
  isSigned := false
  isEncryptedPubkey := false
  isEncryptedChannel := true
  protoCmd := 5
  cmdLen_lt := Nat.mod_lt _ (Nat.two_pow_pos 22)

/-- What the calls share. The first lock is held while `sending` is a body whose
    header is in the buffer. The other fields are not in the source: all bytes the
    buffer accepted, the commands whose calls returned zero, and whether each call
    that returned -1 had left the bytes, the key and the nonce as it found them. -/
structure SendState where
  serverOutBuf : List UInt8
  sendingHeaderKey : UInt32
  sessionNonceSender : SessionNonce
  sending : Option (List UInt8 × List UInt8)
  accepted : List UInt8
  sent : List (List UInt8)
  cleanFailures : Bool
  deriving DecidableEq

inductive SendEvent where
  /-- `datum_protocol_mining_cmd` up to the header -/
  | miningCmd (data : List UInt8)
  /-- the rest of that call -/
  | body
  /-- `send` took so many bytes -/
  | socketTook (count : Nat)

namespace SendState

variable (box : SessionBox) (s : SendState)

/-- The call has encrypted the command and moved the key and the nonce on. -/
def advanced : SendState :=
  { s with
    sendingHeaderKey := headerXorFeedback s.sendingHeaderKey
    sessionNonceSender := incrementSessionNonce s.sessionNonceSender }

/-- The call, up to the header. -/
def beginCmd (data : List UInt8) : SendState :=
  let body := box.easyAfternm s.sessionNonceSender data
  let header := maskedHeader s.sendingHeaderKey (miningCmdHeader data.length)
  match charsToServer s.serverOutBuf header with
  | none => { s.advanced with cleanFailures := false }
  | some outBuf =>
    { s.advanced with
      serverOutBuf := outBuf
      accepted := s.accepted ++ header
      sending := some (data, body) }

/-- The call, behind the header. -/
def endCmd (data body : List UInt8) : SendState :=
  match charsToServer s.serverOutBuf body with
  | none => { s with sending := none, cleanFailures := false }
  | some outBuf =>
    { s with
      serverOutBuf := outBuf
      accepted := s.accepted ++ body
      sending := none
      sent := s.sent ++ [data] }

def step (event : SendEvent) : Option SendState :=
  match event, s.sending with
  | .miningCmd data, none => some (s.beginCmd box data)
  | .miningCmd _, some _ => none
  | .body, some (data, body) => some (s.endCmd data body)
  | .body, none => none
  | .socketTook count, _ =>
    if 0 < count ∧ count ≤ s.serverOutBuf.length then
      some { s with serverOutBuf := s.serverOutBuf.drop count }
    else none

end SendState

def sendSystem (box : SessionBox) : System SendState SendEvent where
  step := SendState.step box

/-! ## The receiver -/

/-- The command behind an unmasked header. -/
def openMiningBody (box : SessionBox) (nonce : SessionNonce) (h : DatumHeader)
    (bytes : List UInt8) : Option (List UInt8 × List UInt8) :=
  if h.isEncryptedChannel ∧ h.protoCmd = 5 then
    (readBytes h.cmdLen bytes).bind fun fields =>
      (box.openEasyAfternm nonce fields.1).map fun data => (data, fields.2)
  else
    none

/-- A frame: the masked header and the encrypted command. The receiver takes both
    apart under its own key and nonce. -/
def miningFrame (box : SessionBox) : Codec (UInt32 × SessionNonce) (List UInt8) where
  encode key data :=
    maskedHeader key.1 (miningCmdHeader data.length) ++ box.easyAfternm key.2 data
  decode key bytes :=
    (readBytes 4 bytes).bind fun fields =>
      openMiningBody box key.2 (unmaskHeader key.1 fields.1) fields.2
  next key := (headerXorFeedback key.1, incrementSessionNonce key.2)

theorem miningFrame_encode (box : SessionBox) (key : UInt32) (nonce : SessionNonce)
    (data : List UInt8) : (miningFrame box).encode (key, nonce) data =
      maskedHeader key (miningCmdHeader data.length) ++ box.easyAfternm nonce data := by
  rw [miningFrame]

theorem miningFrame_next (box : SessionBox) (key : UInt32) (nonce : SessionNonce) :
    (miningFrame box).next (key, nonce) =
      (headerXorFeedback key, incrementSessionNonce nonce) := by
  rw [miningFrame]

/-- A command whose length its header can state. -/
def LengthFits (data : List UInt8) : Prop := data.length + cryptoBoxMacbytes < 2 ^ 22

instance (data : List UInt8) : Decidable (LengthFits data) :=
  inferInstanceAs (Decidable (_ < _))

theorem cmdLen_miningCmdHeader (len : Nat) :
    (miningCmdHeader len).cmdLen = (len + cryptoBoxMacbytes) % 2 ^ 22 := by
  rw [miningCmdHeader]

theorem openMiningBody_easyAfternm (box : SessionBox) (nonce : SessionNonce) {data : List UInt8}
    (h : LengthFits data) (rest : List UInt8) :
    openMiningBody box nonce (miningCmdHeader data.length) (box.easyAfternm nonce data ++ rest) =
      some (data, rest) := by
  have hlen : (box.easyAfternm nonce data).length = (miningCmdHeader data.length).cmdLen := by
    rw [box.length_easyAfternm, cmdLen_miningCmdHeader, Nat.mod_eq_of_lt h]
  have hflags : (miningCmdHeader data.length).isEncryptedChannel = true ∧
      (miningCmdHeader data.length).protoCmd = 5 := by
    rw [miningCmdHeader]
    exact ⟨rfl, rfl⟩
  rw [openMiningBody, if_pos hflags, readBytes_append hlen, Option.bind_some,
    box.open_easyAfternm, Option.map_some]

theorem miningFrame_readsBack (box : SessionBox) {data : List UInt8} (h : LengthFits data) :
    (miningFrame box).ReadsBack data := by
  rintro ⟨key, nonce⟩ rest
  show (readBytes 4 (maskedHeader key (miningCmdHeader data.length) ++
    box.easyAfternm nonce data ++ rest)).bind (fun fields =>
      openMiningBody box nonce (unmaskHeader key fields.1) fields.2) = some (data, rest)
  rw [List.append_assoc, readBytes_append (length_maskedHeader key _), Option.bind_some,
    unmaskHeader_maskedHeader]
  exact openMiningBody_easyAfternm box nonce h rest

/-! ## Runs -/

section Runs

variable (key : UInt32) (nonce : SessionNonce)

/-- No call is under way, and nothing has been sent; any bytes may be queued. -/
def SendState.Fresh (s : SendState) : Prop :=
  s.sendingHeaderKey = key ∧ s.sessionNonceSender = nonce ∧ s.sending = none ∧
    s.accepted = [] ∧
    s.sent = [] ∧ s.cleanFailures = true

/-- Between calls, a receiver that starts with the same key and nonce reads the
    commands that were sent out of the accepted bytes, to their end, and is where
    the sender is; and no call has failed and left a trace. -/
structure SendState.InStep (box : SessionBox) (s : SendState) : Prop where
  decodes : s.sending = none →
    (miningFrame box).decodeAll s.sent.length (key, nonce) s.accepted = some (s.sent, [])
  together : s.sending = none → (s.sendingHeaderKey, s.sessionNonceSender) =
    (miningFrame box).next^[s.sent.length] (key, nonce)
  clean : s.cleanFailures = true

/-- There is room in the buffer for what the step appends, and the length of the
    command fits its field. -/
def SendState.hasRoom (s : SendState) : SendEvent → Bool
  | .miningCmd data =>
    s.serverOutBuf.length + 4 < datumProtocolBufferSize && decide (LengthFits data)
  | .body =>
    match s.sending with
    | some (_, body) => s.serverOutBuf.length + body.length < datumProtocolBufferSize
    | none => true
  | .socketTook _ => true

/-- The accepted bytes are frames, and the header of the one being written. -/
structure SendState.Frames (box : SessionBox) (s : SendState) : Prop where
  fits : ∀ data ∈ s.sent, LengthFits data
  between : s.sending = none →
    s.accepted = (miningFrame box).encodeAll (key, nonce) s.sent ∧
      (s.sendingHeaderKey, s.sessionNonceSender) =
        (miningFrame box).next^[s.sent.length] (key, nonce)
  within : ∀ data body, s.sending = some (data, body) → LengthFits data ∧ 0 < body.length ∧
    s.accepted ++ body = (miningFrame box).encodeAll (key, nonce) (s.sent ++ [data]) ∧
      (s.sendingHeaderKey, s.sessionNonceSender) =
        (miningFrame box).next^[s.sent.length + 1] (key, nonce)
  clean : s.cleanFailures = true

variable {key nonce} {box : SessionBox} {s s' : SendState}

theorem charsToServer_of_room {outBuf bytes : List UInt8} (hbytes : 0 < bytes.length)
    (hroom : outBuf.length + bytes.length < datumProtocolBufferSize) :
    charsToServer outBuf bytes = some (outBuf ++ bytes) := by
  have hne : bytes.isEmpty = false :=
    List.isEmpty_eq_false_iff.mpr (List.ne_nil_of_length_pos hbytes)
  rw [charsToServer, hne, if_neg Bool.false_ne_true, if_neg (by omega)]

/-- The body is left out where there is no room for it, and the call says so. -/
theorem SendState.endCmd_of_full {data body : List UInt8}
    (hfull : datumProtocolBufferSize ≤ s.serverOutBuf.length + body.length) :
    s.endCmd data body = { s with sending := none, cleanFailures := false } := by
  have hchars : charsToServer s.serverOutBuf body = none := by
    rw [charsToServer, if_pos hfull, ite_self]
  rw [SendState.endCmd, hchars]

/-- What the call does up to the header, where there is room. -/
theorem SendState.beginCmd_of_room (box : SessionBox) (s : SendState) (data : List UInt8)
    (hroom : s.serverOutBuf.length + 4 < datumProtocolBufferSize) :
    s.beginCmd box data =
      { s with
        serverOutBuf :=
          s.serverOutBuf ++ maskedHeader s.sendingHeaderKey (miningCmdHeader data.length)
        sendingHeaderKey := headerXorFeedback s.sendingHeaderKey
        sessionNonceSender := incrementSessionNonce s.sessionNonceSender
        accepted := s.accepted ++ maskedHeader s.sendingHeaderKey (miningCmdHeader data.length)
        sending := some (data, box.easyAfternm s.sessionNonceSender data) } := by
  have hchars : charsToServer s.serverOutBuf
      (maskedHeader s.sendingHeaderKey (miningCmdHeader data.length)) =
        some (s.serverOutBuf ++ maskedHeader s.sendingHeaderKey (miningCmdHeader data.length)) := by
    apply charsToServer_of_room
    · rw [length_maskedHeader]
      decide
    · rwa [length_maskedHeader]
  rw [SendState.beginCmd]
  simp only [hchars]
  rw [SendState.advanced]

theorem SendState.Frames.beginCmd (h : s.Frames key nonce box) (hidle : s.sending = none)
    {data : List UInt8} (hroom : s.serverOutBuf.length + 4 < datumProtocolBufferSize)
    (hfits : LengthFits data) : (s.beginCmd box data).Frames key nonce box := by
  obtain ⟨haccepted, htogether⟩ := h.between hidle
  have hframe : s.accepted ++ maskedHeader s.sendingHeaderKey (miningCmdHeader data.length) ++
      box.easyAfternm s.sessionNonceSender data =
        (miningFrame box).encodeAll (key, nonce) (s.sent ++ [data]) := by
    rw [Codec.encodeAll_concat, ← htogether, miningFrame_encode, haccepted, List.append_assoc]
  have hnext : (headerXorFeedback s.sendingHeaderKey, incrementSessionNonce s.sessionNonceSender) =
      (miningFrame box).next^[s.sent.length + 1] (key, nonce) := by
    rw [Function.iterate_succ_apply', ← htogether, miningFrame_next]
  rw [SendState.beginCmd_of_room box s data hroom]
  refine ⟨h.fits, nofun, ?_, h.clean⟩
  rintro data' body' heq
  obtain ⟨rfl, rfl⟩ := Prod.mk.inj (Option.some.inj heq)
  refine ⟨hfits, ?_, hframe, hnext⟩
  rw [box.length_easyAfternm, cryptoBoxMacbytes]
  exact Nat.succ_pos _

theorem SendState.Frames.endCmd (h : s.Frames key nonce box) {data body : List UInt8}
    (hsending : s.sending = some (data, body))
    (hroom : s.serverOutBuf.length + body.length < datumProtocolBufferSize) :
    (s.endCmd data body).Frames key nonce box := by
  obtain ⟨hfits, hbody, haccepted, htogether⟩ := h.within data body hsending
  have hsent : (s.sent ++ [data]).length = s.sent.length + 1 := by
    rw [List.length_append, List.length_singleton]
  rw [← hsent] at htogether
  rw [SendState.endCmd]
  simp only [charsToServer_of_room hbody hroom]
  refine ⟨?_, fun _ => ⟨haccepted, htogether⟩, nofun, h.clean⟩
  intro other hother
  rcases List.mem_append.mp hother with hold | hlast
  · exact h.fits other hold
  · rwa [List.mem_singleton.mp hlast]

theorem SendState.Frames.step {event : SendEvent} (h : s.Frames key nonce box)
    (hroom : s.hasRoom event = true) (hstep : s.step box event = some s') :
    s'.Frames key nonce box := by
  cases event with
  | miningCmd data =>
    simp only [SendState.hasRoom, Bool.and_eq_true, decide_eq_true_eq] at hroom
    cases hsending : s.sending with
    | none =>
      simp only [SendState.step, hsending, Option.some.injEq] at hstep
      rw [← hstep]
      exact h.beginCmd hsending hroom.1 hroom.2
    | some sending =>
      simp only [SendState.step, hsending] at hstep
      cases hstep
  | body =>
    cases hsending : s.sending with
    | none =>
      simp only [SendState.step, hsending] at hstep
      cases hstep
    | some sending =>
      obtain ⟨data, body⟩ := sending
      simp only [SendState.hasRoom, hsending, decide_eq_true_eq] at hroom
      simp only [SendState.step, hsending, Option.some.injEq] at hstep
      rw [← hstep]
      exact h.endCmd hsending hroom
  | socketTook count =>
    -- what the socket takes was accepted before
    simp only [SendState.step] at hstep
    split at hstep
    · rw [← Option.some.inj hstep]
      exact ⟨h.fits, h.between, h.within, h.clean⟩
    · cases hstep

theorem SendState.Frames.inStep (h : s.Frames key nonce box) : s.InStep key nonce box := by
  refine ⟨?_, fun hidle => (h.between hidle).2, h.clean⟩
  intro hidle
  have hdecode := Codec.decodeAll_encodeAll (key, nonce)
    (fun data hdata => miningFrame_readsBack box (h.fits data hdata)) []
  rwa [List.append_nil, ← (h.between hidle).1] at hdecode

/-- While there is room for each call, what was accepted stays in step with the
    receiver. -/
theorem inStep_of_hasRoom
    (hrun : (sendSystem box).ReachedBy (fun s event => s.hasRoom event = true)
      (SendState.Fresh key nonce) s) : s.InStep key nonce box := by
  apply SendState.Frames.inStep
  apply hrun.invariant
  · rintro fresh ⟨hkey, hnonce, hidle, haccepted, hsent, hclean⟩
    refine ⟨?_, ?_, ?_, hclean⟩
    · rw [hsent]
      exact nofun
    · intro _
      rw [haccepted, hsent, hkey, hnonce]
      exact ⟨rfl, rfl⟩
    · rw [hidle]
      exact nofun
  · intro before event after h hroom hstep
    exact h.step hroom hstep

end Runs

/-- The low byte of the nonce, sixteen times. -/
def nonceMark (nonce : SessionNonce) : List UInt8 :=
  List.replicate cryptoBoxMacbytes (UInt8.ofNat (nonce.headD 0).toNat)

/-- A box that adds the mark of the nonce, and opens under a nonce with that mark. -/
def nonceBox : SessionBox where
  easyAfternm nonce data := data ++ nonceMark nonce
  openEasyAfternm nonce bytes :=
    if bytes.drop (bytes.length - cryptoBoxMacbytes) = nonceMark nonce then
      some (bytes.take (bytes.length - cryptoBoxMacbytes))
    else none
  length_easyAfternm nonce data := by
    rw [List.length_append, nonceMark, List.length_replicate]
  open_easyAfternm nonce data := by
    have hlen : (data ++ nonceMark nonce).length - cryptoBoxMacbytes = data.length := by
      rw [List.length_append, nonceMark, List.length_replicate, Nat.add_sub_cancel]
    rw [hlen, List.drop_left' rfl, if_pos rfl, List.take_left' rfl]

/-- A session with so many bytes queued. -/
def queuedState (queued : Nat) : SendState where
  serverOutBuf := List.replicate queued 0
  sendingHeaderKey := 7
  sessionNonceSender := List.replicate 6 1
  sending := none
  accepted := []
  sent := []
  cleanFailures := true

theorem queuedState_fresh (queued : Nat) :
    (queuedState queued).Fresh 7 (List.replicate 6 1) := ⟨rfl, rfl, rfl, rfl, rfl, rfl⟩

/-- Two commands, of which the socket takes parts in between. -/
theorem exists_sent_inStep : ∃ s, s.sent = [[0x10, 1], [0x27]] ∧
    (sendSystem nonceBox).ReachedBy (fun s event => s.hasRoom event = true)
      (SendState.Fresh 7 (List.replicate 6 1)) s ∧
    s.InStep 7 (List.replicate 6 1) nonceBox := by
  obtain ⟨s, hrun, hsent⟩ := System.exists_reachedBy_of_replay (sendSystem nonceBox)
    (queuedState_fresh 5) (fun s event => s.hasRoom event)
    [.miningCmd [0x10, 1], .socketTook 7, .body, .socketTook 3, .miningCmd [0x27], .body]
    (fun s => s.sent = [[0x10, 1], [0x27]]) (fun _ _ hroom => hroom) (by decide +kernel)
  exact ⟨s, of_decide_eq_true hsent, hrun, inStep_of_hasRoom hrun⟩

/-- With ten bytes left the header of a command is accepted and its body is not:
    the call returns -1, and what follows is read as the body. -/
theorem exists_header_accepted_alone : ∃ s,
    (sendSystem nonceBox).Reachable (SendState.Fresh 7 (List.replicate 6 1)) s ∧
    s.sending = none ∧ s.sent = [] ∧ s.accepted.length = 4 ∧
    ¬ s.InStep 7 (List.replicate 6 1) nonceBox := by
  have hqueued : (queuedState (datumProtocolBufferSize - 10)).serverOutBuf.length =
      datumProtocolBufferSize - 10 := List.length_replicate
  have hsize : datumProtocolBufferSize - 10 + 4 < datumProtocolBufferSize := by
    rw [datumProtocolBufferSize]
    omega
  have hstart : (sendSystem nonceBox).Reachable (SendState.Fresh 7 (List.replicate 6 1))
      (queuedState (datumProtocolBufferSize - 10)) := .start (queuedState_fresh _)
  generalize hs : queuedState (datumProtocolBufferSize - 10) = s at hqueued hstart
  have hidle : s.sending = none := by rw [← hs, queuedState]
  have hnothing : s.accepted = [] ∧ s.sent = [] := by
    rw [← hs, queuedState]
    exact ⟨rfl, rfl⟩
  have hcmd : (sendSystem nonceBox).step s (.miningCmd [1]) = some (s.beginCmd nonceBox [1]) := by
    show SendState.step nonceBox s (.miningCmd [1]) = _
    simp only [SendState.step, hidle]
  have hheader := hstart.step trivial hcmd
  rw [SendState.beginCmd_of_room nonceBox s [1] (by rwa [hqueued])] at hheader
  have hbodyLength := nonceBox.length_easyAfternm s.sessionNonceSender [1]
  generalize nonceBox.easyAfternm s.sessionNonceSender [1] = body at hheader hbodyLength
  have hmasked := length_maskedHeader s.sendingHeaderKey (miningCmdHeader [(1 : UInt8)].length)
  generalize maskedHeader s.sendingHeaderKey (miningCmdHeader [(1 : UInt8)].length) = header
    at hheader hmasked
  have hfull : datumProtocolBufferSize ≤ (s.serverOutBuf ++ header).length + body.length := by
    rw [List.length_append, hqueued, hmasked, hbodyLength, cryptoBoxMacbytes,
      datumProtocolBufferSize]
    omega
  generalize hmiddle : ({ s with
    serverOutBuf := s.serverOutBuf ++ header
    sendingHeaderKey := headerXorFeedback s.sendingHeaderKey
    sessionNonceSender := incrementSessionNonce s.sessionNonceSender
    accepted := s.accepted ++ header
    sending := some ([1], body) } : SendState) = middle at hheader
  have hsending : middle.sending = some ([1], body) := by rw [← hmiddle]
  have hend : (sendSystem nonceBox).step middle .body = some (middle.endCmd [1] body) := by
    show SendState.step nonceBox middle .body = _
    simp only [SendState.step, hsending]
  have hmiddleFull : datumProtocolBufferSize ≤ middle.serverOutBuf.length + body.length := by
    rw [show middle.serverOutBuf = s.serverOutBuf ++ header by rw [← hmiddle]]
    exact hfull
  rw [SendState.endCmd_of_full hmiddleFull] at hend
  refine ⟨_, hheader.step trivial hend, rfl, ?_, ?_, ?_⟩
  · rw [← hmiddle, hnothing.2]
  · rw [← hmiddle, hnothing.1, List.nil_append, hmasked]
  · intro hstep
    exact Bool.noConfusion hstep.clean

end ChirpGateway
