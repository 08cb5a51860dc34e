import ChirpGateway.Stratum.Client
import Mathlib.Data.List.Induction

/-!
# What a client receives

Whole messages, as long as no notify is appended in part and no request for the minimum
difficulty alone is confirmed. A notify is appended in up to a dozen pieces, each of
which is left out by itself when the write buffer has no room for it.
-/

namespace ChirpGateway

open Bytes JsonText Transition

/-- What was sent, with what still waits, is made of some of the messages, each as it was
    built, and each of them is a line of JSON. -/
structure ClientState.SendsWhole (s : ClientState) : Prop where
  carries : s.box.Carries s.built
  lines : ∀ message ∈ s.built, IsLine message

namespace ClientState

variable (cfg : VardiffConfig) (fingerprintMiners : Bool) (s : ClientState)

/-! ## The condition -/

/-- A notify that is sent now is appended as a whole, or not at all. -/
def NotifyWhole (clean quickdiff newBlock : Bool) (userSiaCoinb1 : Option (List UInt8)) : Prop :=
  ∀ job, s.curStratumJob = some job →
    let s := s.announced cfg job (quickdiff && !newBlock)
    s.box.GoesWhole clientBuffer
      (notifyPieces job (s.notifyCall clean (quickdiff && !newBlock) newBlock userSiaCoinb1))

/-- The notifies of a step go whole, and the minimum difficulty is not asked for alone. -/
def WritesWhole : ClientEvent → Prop
  | .subscribe id sid useragent userSia => s.m.subscribed = false →
    ((s.subscribing cfg fingerprintMiners id sid useragent).subscribed cfg).NotifyWhole cfg
      true false false userSia
  | .configure _ names _ => names.contains (ascii "minimum-difficulty") →
    names.contains (ascii "version-rolling")
  | .submit share userSia => s.accepts share → ∀ ratio,
    let s := s.credit share
    vardiffMove cfg s.m false s.loopTsms = .quick ratio →
      (s.quickened ratio).NotifyWhole cfg true true false userSia
  | .notify clean newBlock userSia => s.NotifyWhole cfg clean false newBlock userSia
  | _ => True

variable {cfg} {fingerprintMiners} {s}

/-! ## Messages keep the stream whole -/

/-- Only the write buffer and the messages matter. -/
theorem SendsWhole.congr {s' : ClientState} (h : s.SendsWhole) (hbox : s'.box = s.box)
    (hbuilt : s'.built = s.built) : s'.SendsWhole := by
  constructor
  · rw [hbox, hbuilt]
    exact h.carries
  · rw [hbuilt]
    exact h.lines

theorem SendsWhole.sendPieces (h : s.SendsWhole) {pieces messages : List (List UInt8)}
    (hflat : pieces.flatten = messages.flatten) (hwhole : s.box.GoesWhole clientBuffer pieces)
    (hlines : ∀ message ∈ messages, IsLine message) :
    (s.sendPieces pieces messages).SendsWhole := by
  constructor
  · exact h.carries.appendAll hflat hwhole
  · intro message hmessage
    rcases List.mem_append.mp hmessage with hold | hnew
    · exact h.lines message hold
    · exact hlines message hnew

theorem SendsWhole.send (h : s.SendsWhole) {text : List UInt8} (hline : IsLine text) :
    (s.send text).SendsWhole := by
  apply h.sendPieces rfl (Outbox.goesWhole_singleton text)
  intro message hmessage
  rw [List.mem_singleton.mp hmessage]
  exact hline

theorem SendsWhole.sendMiningSetDifficulty (h : s.SendsWhole) :
    (s.sendMiningSetDifficulty cfg).SendsWhole :=
  (h.send (isLine_setDifficultyText _)).congr rfl rfl

/-- A change that is not quick only changes the miner's data. -/
theorem SendsWhole.updateVardiff (h : s.SendsWhole) {notifyQuick : ClientState → ClientState}
    {noQuick : Bool} (hquick : ∀ ratio, vardiffMove cfg s.m noQuick s.loopTsms = .quick ratio →
      (notifyQuick (s.quickened ratio)).SendsWhole) :
    (s.updateVardiff cfg notifyQuick noQuick).SendsWhole := by
  unfold ClientState.updateVardiff
  cases hmove : vardiffMove cfg s.m noQuick s.loopTsms with
  | keep => exact h
  | lower => exact h.congr rfl rfl
  | raise => exact h.congr rfl rfl
  | quick ratio => exact (hquick ratio hmove).congr rfl rfl

theorem SendsWhole.announced (h : s.SendsWhole) (job : NotifiedJob) (quickdiff : Bool) :
    (s.announced cfg job quickdiff).SendsWhole := by
  have hvardiff : (if quickdiff then s else s.updateVardiff cfg id true).SendsWhole := by
    split
    · exact h
    · exact h.updateVardiff fun ratio _ => h.congr rfl rfl
  have hadjusted : (s.adjusted cfg job quickdiff).SendsWhole := by
    unfold ClientState.adjusted
    generalize (if quickdiff then s else s.updateVardiff cfg id true) = s' at hvardiff
    dsimp only
    split
    · exact hvardiff.congr rfl rfl
    · exact hvardiff
  unfold ClientState.announced
  dsimp only
  split
  · exact hadjusted.sendMiningSetDifficulty.congr rfl rfl
  · exact hadjusted.congr rfl rfl

theorem SendsWhole.sendMiningNotify (h : s.SendsWhole) {clean quickdiff newBlock : Bool}
    {userSiaCoinb1 : Option (List UInt8)}
    (hwhole : s.NotifyWhole cfg clean quickdiff newBlock userSiaCoinb1) :
    (s.sendMiningNotify cfg clean quickdiff newBlock userSiaCoinb1).SendsWhole := by
  unfold ClientState.sendMiningNotify
  cases hjob : s.curStratumJob with
  | none => exact h
  | some job =>
    apply (h.announced job (quickdiff && !newBlock)).sendPieces
    · rw [List.flatten_singleton]
    · exact hwhole job hjob
    · intro message hmessage
      rw [List.mem_singleton.mp hmessage]
      exact isLine_notifyPieces _ _

/-! ## Requests -/

/-- The masks that are sent: none, one, or two. -/
theorem maskMessages_eq (names : List (List UInt8)) (mask : UInt32) :
    maskMessages names mask = ([], 0) ∨
      maskMessages names mask = (versionMaskText mask, (versionMaskText mask).length) ∨
      maskMessages names mask =
        (versionMaskText mask ++ versionMaskText mask, (versionMaskText mask).length) := by
  unfold maskMessages
  induction names using List.reverseRecOn with
  | nil => exact Or.inl rfl
  | append_singleton names name ih =>
    rw [List.foldl_append, List.foldl_cons, List.foldl_nil]
    by_cases hname : name = ascii "version-rolling"
    · rw [if_pos hname]
      right
      rcases ih with hnone | hone | htwo
      · left
        rw [hnone]
        rfl
      · right
        rw [hone, List.take_length]
      · right
        rw [htwo, List.take_left]
    · rw [if_neg hname]
      exact ih

theorem SendsWhole.clientMiningConfigure (h : s.SendsWhole) (id : RequestId)
    {names : List (List UInt8)} (maskText : Option (List UInt8))
    (hnames : names.contains (ascii "minimum-difficulty") →
      names.contains (ascii "version-rolling")) :
    (s.clientMiningConfigure id names maskText).SendsWhole := by
  have hreply := h.send (isLine_configureText id (versionMask maskText) hnames)
  have hlines : ∀ count,
      ∀ message ∈ List.replicate count (versionMaskText (versionMask maskText)),
      IsLine message := by
    intro count message hmessage
    rw [(List.mem_replicate.mp hmessage).2]
    exact isLine_versionMaskText _
  have hpos : 0 < (versionMaskText (versionMask maskText)).length := by
    rw [versionMaskText, hex8, List.length_append, List.length_append, Hex.length_encode,
      List.length_reverse, Wire.length_leBytes]
    omega
  unfold ClientState.clientMiningConfigure
  dsimp only
  rcases maskMessages_eq names (versionMask maskText) with hmasks | hmasks | hmasks
  · rw [hmasks, if_neg (by simp)]
    exact hreply
  · rw [hmasks, if_pos (Nat.ne_of_gt hpos)]
    apply hreply.sendPieces _ (Outbox.goesWhole_singleton _) (hlines _)
    rw [Nat.div_self hpos]
    simp
  · rw [hmasks, if_pos (Nat.ne_of_gt hpos)]
    apply hreply.sendPieces _ (Outbox.goesWhole_singleton _) (hlines _)
    dsimp only
    rw [List.length_append, ← Nat.two_mul, Nat.mul_div_cancel _ hpos]
    simp [List.replicate]

theorem SendsWhole.clientMiningSubmit (h : s.SendsWhole) {share : ShareCall}
    {userSiaCoinb1 : Option (List UInt8)}
    (hcond : s.WritesWhole cfg fingerprintMiners (.submit share userSiaCoinb1)) :
    (s.clientMiningSubmit cfg share userSiaCoinb1).SendsWhole := by
  rcases s.clientMiningSubmit_cases cfg share userSiaCoinb1 with
    ⟨haccepts, heq⟩ | ⟨error, heq⟩
  · have hcredit : (s.credit share).SendsWhole :=
      (h.send (isLine_acceptText share.id)).congr rfl rfl
    rw [heq]
    apply hcredit.updateVardiff
    intro ratio hmove
    have hraised : ((s.credit share).quickened ratio).SendsWhole := hcredit.congr rfl rfl
    exact hraised.sendMiningNotify (hcond haccepts ratio hmove)
  · rw [heq]
    exact h.send (isLine_errorText share.id error)

theorem SendsWhole.clientMiningSubscribe (h : s.SendsWhole) {id : RequestId} {sid : UInt32}
    {useragent userSiaCoinb1 : Option (List UInt8)}
    (hcond : s.WritesWhole cfg fingerprintMiners (.subscribe id sid useragent userSiaCoinb1)) :
    (s.clientMiningSubscribe cfg fingerprintMiners id sid useragent userSiaCoinb1).SendsWhole := by
  unfold ClientState.clientMiningSubscribe
  cases hsubscribed : s.m.subscribed with
  | true => exact h
  | false =>
    have hreply : (s.subscribing cfg fingerprintMiners id sid useragent).SendsWhole := by
      have hbegun : ClientState.SendsWhole
          { s with m := s.m.beginSubscribe cfg fingerprintMiners useragent } := h.congr rfl rfl
      exact hbegun.send (isLine_subscribeText id sid)
    have hdiff :
        ((s.subscribing cfg fingerprintMiners id sid useragent).subscribed cfg).SendsWhole :=
      hreply.sendMiningSetDifficulty.congr rfl rfl
    exact (hdiff.sendMiningNotify (hcond hsubscribed)).congr rfl rfl

/-! ## Runs -/

theorem SendsWhole.step (h : s.SendsWhole) {event : ClientEvent}
    (hcond : s.WritesWhole cfg fingerprintMiners event) {s' : ClientState}
    (hstep : s.step cfg fingerprintMiners event = some s') : s'.SendsWhole := by
  unfold ClientState.step at hstep
  split at hstep
  · cases hstep
  · cases event with
    | subscribe id sid useragent userSia =>
      cases hstep
      exact h.clientMiningSubscribe hcond
    | authorize id refused =>
      cases hstep
      cases refused with
      | true => exact h.send (isLine_refuseText id)
      | false => exact h.send (isLine_acceptText id)
    | configure id names maskText =>
      cases hstep
      exact h.clientMiningConfigure id maskText hcond
    | submit share userSia =>
      cases hstep
      exact h.clientMiningSubmit hcond
    | unknownMethod id =>
      cases hstep
      exact h.send (isLine_errorText id .methodNotFound)
    | notify clean newBlock userSia =>
      simp only [ClientState.handle] at hstep
      split at hstep
      · cases hstep
        exact h.sendMiningNotify hcond
      · cases hstep
    | newJob job =>
      cases hstep
      exact h.congr rfl rfl
    | coinbaseReady ready =>
      cases hstep
      exact h.congr rfl rfl
    | elapse tsms =>
      cases hstep
      exact h.congr rfl rfl
    | poolMin diff powerOfTwo =>
      cases hstep
      exact h.congr rfl rfl
    | transmit count =>
      simp only [ClientState.handle] at hstep
      split at hstep
      · cases hstep
        exact ⟨h.carries.transmit count, h.lines⟩
      · cases hstep
    | close =>
      cases hstep
      exact h.congr rfl rfl

end ClientState

/-- With any whole messages still unsent at the start, what a client receives is made of
    whole messages. -/
theorem sendsWhole_of_writesWhole {cfg : VardiffConfig} {fingerprintMiners : Bool}
    {s : ClientState}
    (hrun : (clientSystem cfg fingerprintMiners).ReachedBy
      (fun s event => s.WritesWhole cfg fingerprintMiners event) ClientState.SendsWhole s) :
    s.SendsWhole := by
  apply hrun.invariant (fun s h => h)
  intro s event s' h hcond hstep
  exact ClientState.SendsWhole.step h hcond hstep

/-! ## A client that does not read -/

def defaultVardiff : VardiffConfig where
  vardiffMin := 1024
  vardiffTargetSharesMin := 8
  vardiffQuickdiffCount := 8
  vardiffQuickdiffDelta := 8
  min_powerOfTwo := ⟨10, rfl⟩
  targetShares_pos := by decide
  quickdiffCount_ge := by decide
  quickdiffDelta_ge := by decide

def siaJob : NotifiedJob where
  globalIndex := 0
  jobId := ascii "6625a3d53cc0de"
  prevhash := List.replicate 64 0x30
  version := ascii "20000000"
  nbits := ascii "17034219"
  ntime := List.replicate 16 0x30
  merklebranchesHex := []
  isBlake2b := true
  isDatumJob := false
  jobState := 5
  coinbase := fun _ => { coinb1Bin := cbStart, coinb2Bin := [] }
  subsidyOnlyCoinbase := { coinb1Bin := cbStart, coinb2Bin := [] }
  targetPotIndex := 0
  blake2bCoinbaseIndex := 0
  blake2bSiaCoinb1 := List.replicate 39 0
  plain := by decide

/-- The reply to an accepted share. -/
def oneReply : List UInt8 := acceptText (.integer 1)

def noTarget : Hash32 where
  bytes := List.replicate 32 0
  length_eq := length_blank

/-- A subscribed client with so many replies, of which it has read some bytes. -/
def waitingClient (replies read : Nat) : ClientState where
  m := {
    subscribed := true
    currentDiff := 1024
    lastSentDiff := 1024
    stratumJobDiffs := fun _ => 0
    stratumJobTargets := fun _ => noTarget
    coinbaseSelection := 0
    shareCountSinceSnap := 0
    shareDiffSinceSnap := 0
    shareSnapTsms := 0
    quickdiffActive := false
    quickdiffValue := 0
    quickdiffTarget := noTarget
    forcedHighMinDiff := 0 }
  box := Outbox.transmit { sent := [], queued := (List.replicate replies oneReply).flatten } read
  built := List.replicate replies oneReply
  ledger := []
  curStratumJob := some siaJob
  loopTsms := 0
  fullCoinbaseReady := false
  overrideVardiffMin := 0
  closed := false

theorem waitingClient_sendsWhole (replies read : Nat) :
    (waitingClient replies read).SendsWhole := by
  constructor
  · exact ⟨List.replicate replies oneReply, .refl _, Outbox.stream_transmit _ _⟩
  · intro message hmessage
    rw [(List.mem_replicate.mp hmessage).2]
    exact isLine_acceptText _

theorem length_waitingClient (replies read : Nat) :
    (waitingClient replies read).box.queued.length = 36 * replies - read := by
  have hreply : oneReply.length = 36 := by decide
  simp [waitingClient, Outbox.transmit, hreply, Nat.mul_comm]

/-- The pieces of the notify that is sent to the client. -/
def siaPieces : List (List UInt8) :=
  notifyPieces siaJob ((waitingClient 0 0).notifyCall false false false none)

set_option maxRecDepth 8000 in
theorem exists_notify_sendsWhole : ∃ s,
    (clientSystem defaultVardiff true).ReachedBy
      (fun s event => s.WritesWhole defaultVardiff true event) ClientState.SendsWhole s ∧
    s.SendsWhole := by
  have hrun : (clientSystem defaultVardiff true).ReachedBy
      (fun s event => s.WritesWhole defaultVardiff true event) ClientState.SendsWhole
      ((waitingClient 1 0).sendMiningNotify defaultVardiff false false false none) := by
    refine .step (a := .notify false false none) (.start (waitingClient_sendsWhole 1 0)) ?_ rfl
    intro job hjob
    cases hjob
    have hpieces : siaPieces.flatten.length < 1000 := by decide
    have hwaiting := length_waitingClient 1 0
    have hfits : (waitingClient 1 0).box.queued.length + siaPieces.flatten.length <
        clientBuffer := by
      unfold clientBuffer
      omega
    exact Or.inl hfits
  exact ⟨_, hrun, sendsWhole_of_writesWhole hrun⟩

/-- The difficulty is not changed, and no message is sent for it. -/
theorem announced_waitingClient (replies read : Nat) :
    ∃ m ledger, (waitingClient replies read).announced defaultVardiff siaJob false =
      { waitingClient replies read with m, ledger } ∧ m.lastSentDiff = 1024 ∧
        m.coinbaseSelection = 0 := by
  have hmove : vardiffMove defaultVardiff (waitingClient replies read).m true 0 = .keep := by
    simp [vardiffMove, waitingClient]
  have hadjusted : (waitingClient replies read).adjusted defaultVardiff siaJob false =
      waitingClient replies read := by
    unfold ClientState.adjusted ClientState.updateVardiff
    dsimp only [waitingClient] at hmove ⊢
    rw [hmove]
    rfl
  unfold ClientState.announced
  rw [hadjusted]
  exact ⟨_, _, rfl, rfl, rfl⟩

theorem sendMiningNotify_waitingClient (replies read : Nat) :
    ∃ m ledger,
      (waitingClient replies read).sendMiningNotify defaultVardiff false false false none =
      { waitingClient replies read with
        m, ledger
        box := (waitingClient replies read).box.appendAll clientBuffer siaPieces
        built := List.replicate replies oneReply ++ [siaPieces.flatten] } := by
  obtain ⟨m, ledger, hannounced, hdiff, hselection⟩ := announced_waitingClient replies read
  have hcall : ({ waitingClient replies read with m, ledger } : ClientState).notifyCall
      false false false none = (waitingClient 0 0).notifyCall false false false none := by
    unfold ClientState.notifyCall
    dsimp only
    rw [hdiff, hselection]
    rfl
  have hsend : (waitingClient replies read).sendMiningNotify defaultVardiff false false false none =
      ({ waitingClient replies read with m, ledger } : ClientState).sendPieces siaPieces
        [siaPieces.flatten] := by
    unfold siaPieces
    rw [← hcall, ← hannounced]
    rfl
  rw [hsend]
  unfold ClientState.sendPieces
  exact ⟨m, ledger, rfl⟩

def notifyHead : List UInt8 :=
  ascii "\x7b\"id\":null,\"method\":\"mining.notify\",\"params\":["

/-- The first piece takes all but one byte of the room, and no other piece fits. -/
theorem appendAll_siaPieces {replies read : Nat} (h : 36 * replies - read = 50129) :
    (waitingClient replies read).box.appendAll clientBuffer siaPieces =
      { (waitingClient replies read).box with
        queued := (waitingClient replies read).box.queued ++ notifyHead } := by
  have hwaiting := (length_waitingClient replies read).trans h
  have hhead : notifyHead.length = 46 := by decide
  have hpieces : siaPieces = notifyHead :: siaPieces.tail := rfl
  rw [hpieces, Outbox.appendAll_cons, Outbox.append_of_fits (by rw [hwaiting, hhead]; decide)]
  apply Outbox.appendAll_of_full
  intro piece _ hpiece
  have hpos := List.length_pos_iff.mpr hpiece
  rw [List.length_append, hwaiting, hhead]
  unfold clientBuffer
  omega

/-- Messages in which one byte is as frequent as another are so together. -/
theorem count_flatten_congr {a b : UInt8} {messages : List (List UInt8)}
    (h : ∀ message ∈ messages, message.count a = message.count b) :
    messages.flatten.count a = messages.flatten.count b := by
  rw [List.count_flatten, List.count_flatten, List.map_congr_left h]

set_option maxRecDepth 4000 in
theorem count_siaPieces : siaPieces.flatten.count 0x7b = siaPieces.flatten.count 0x0a := by
  decide

theorem step_transmit {cfg : VardiffConfig} {fingerprintMiners : Bool} {s : ClientState}
    (h : s.closed = false) :
    (clientSystem cfg fingerprintMiners).step s (.transmit s.box.queued.length) =
      some { s with box := s.box.transmit s.box.queued.length } := by
  simp [clientSystem, ClientState.step, ClientState.handle, h]

/-- A reply to a client for which nothing waits. -/
theorem stream_send_of_idle {s : ClientState} {text : List UInt8} (h : s.box.queued = [])
    (htext : text.length < clientBuffer) : (s.send text).box.stream = s.box.stream ++ text := by
  have hfits : s.box.queued.length + [text].flatten.length < clientBuffer := by
    rw [h, List.flatten_singleton, List.length_nil, Nat.zero_add]
    exact htext
  show (s.box.appendAll clientBuffer [text]).stream = _
  rw [Outbox.appendAll_of_fits hfits, List.flatten_singleton]
  unfold Outbox.stream
  rw [List.append_assoc]

/-- What the client has received when it has read all of it: a notify without its end,
    and the next reply in the same line. -/
theorem exists_notify_cut : ∃ s,
    (clientSystem defaultVardiff true).Reachable ClientState.SendsWhole s ∧ s.box.queued = [] ∧
      ¬ s.SendsWhole := by
  obtain ⟨replies, read, hlen⟩ : ∃ replies read, 36 * replies - read = 50129 :=
    ⟨1393, 19, rfl⟩
  obtain ⟨m, ledger, hnotify⟩ := sendMiningNotify_waitingClient replies read
  rw [appendAll_siaPieces hlen] at hnotify
  have hstart : (clientSystem defaultVardiff true).Reachable ClientState.SendsWhole
      (waitingClient replies read) := .start (waitingClient_sendsWhole replies read)
  have hcut := hstart.step (a := .notify false false none) trivial rfl
  rw [hnotify] at hcut
  have hread := hcut.step trivial (step_transmit rfl)
  have hreply := hread.step (a := .unknownMethod (.integer 2)) trivial rfl
  have hall := hreply.step trivial (step_transmit rfl)
  refine ⟨_, hall, Outbox.queued_transmit_length _, ?_⟩
  rintro ⟨⟨kept, hkept, hstream⟩, -⟩
  -- every message opens one object in one line, and the stream opens one more
  have hreplies : oneReply.count 0x7b = oneReply.count 0x0a := by decide
  have herror : (errorText (.integer 2) .methodNotFound).count 0x7b =
      (errorText (.integer 2) .methodNotFound).count 0x0a := by decide
  have hbalanced : ∀ message ∈ kept, message.count 0x7b = message.count 0x0a := by
    intro message hmessage
    have hbuilt : message ∈ List.replicate replies oneReply ++ [siaPieces.flatten] ++
      [errorText (.integer 2) .methodNotFound] := hkept.subset hmessage
    rcases List.mem_append.mp hbuilt with hbuilt | hlast
    · rcases List.mem_append.mp hbuilt with hreply | hsia
      · rw [(List.mem_replicate.mp hreply).2, hreplies]
      · rw [List.mem_singleton.mp hsia]
        exact count_siaPieces
    · rw [List.mem_singleton.mp hlast, herror]
  rw [Outbox.stream_transmit] at hstream
  change (ClientState.send _ (errorText (.integer 2) .methodNotFound)).box.stream = _ at hstream
  rw [stream_send_of_idle (Outbox.queued_transmit_length _) (by decide), Outbox.stream_transmit]
    at hstream
  have hwaiting : ((waitingClient replies read).box.stream).count 0x7b =
      ((waitingClient replies read).box.stream).count 0x0a := by
    rw [waitingClient, Outbox.stream_transmit]
    apply count_flatten_congr
    intro message hmessage
    rw [(List.mem_replicate.mp hmessage).2, hreplies]
  have hcount := count_flatten_congr hbalanced
  have hcut : notifyHead.count 0x7b = notifyHead.count 0x0a + 1 := by decide
  have hsplit : Outbox.stream (waitingClient replies read).box ++ notifyHead ++
      errorText (.integer 2) .methodNotFound = kept.flatten := by
    rw [← hstream]
    unfold Outbox.stream
    simp only [List.append_assoc]
  rw [← hsplit] at hcount
  simp only [List.count_append, hwaiting, hcut, herror] at hcount
  omega

end ChirpGateway
