import ChirpGateway.Lib.Outbox
import ChirpGateway.Lib.Tables
import ChirpGateway.Lib.Transition
import ChirpGateway.Stratum.Vardiff

/-!
# A Stratum client

The connection of one miner and what its thread does with it: the replies to its
requests, the difficulty, and the notifies (`datum_stratum.c:998-1490`, `1495-2014`).
Everything goes through the write buffer of the socket (`datum_sockets.c:204-230`,
`805-823`), which leaves out what does not fit.
-/

namespace ChirpGateway

open Bytes Transition

/-- `CLIENT_BUFFER`. -/
def clientBuffer : Nat := 16384 * 3 + 1024

/-- What is remembered of a connection. -/
inductive LedgerEntry where
  /-- a `mining.set_difficulty` that the write buffer took -/
  | announced (diff : UInt64)
  /-- a notify, with the minimum of the pool if the job is for it -/
  | notified (slot : Fin 256) (isBlake2b quickdiff : Bool) (poolMin : UInt64)
  /-- an accepted share, with the target it was compared against -/
  | credited (diff : UInt64) (target : Hash32)

/-- A client and its thread. -/
structure ClientState where
  m : MinerDiffs
  box : Outbox UInt8
  /-- every message that was built, in order -/
  built : List (List UInt8)
  /-- the last entry first -/
  ledger : List LedgerEntry
  curStratumJob : Option NotifiedJob
  loopTsms : UInt64
  fullCoinbaseReady : Bool
  overrideVardiffMin : UInt64
  closed : Bool

/-- What a share is checked for: the checks in front of the one for the target and those
    behind it refuse it or let it pass. -/
structure ShareCall where
  id : RequestId
  jobIndex : Fin 256
  quickdiff : Bool
  shareHash : Hash32
  refusedBefore : Option ErrorReply
  refusedBehind : Option ErrorReply

namespace ClientState

variable (cfg : VardiffConfig) (s : ClientState)

/-- A message, appended in pieces. -/
def sendPieces (pieces messages : List (List UInt8)) : ClientState :=
  { s with box := s.box.appendAll clientBuffer pieces, built := s.built ++ messages }

/-- `datum_socket_send_string_to_client`, for a message of its own. -/
def send (text : List UInt8) : ClientState := s.sendPieces [text] [text]

/-- The write buffer takes the text. -/
def Fits (text : List UInt8) : Prop := s.box.queued.length + text.length < clientBuffer

instance (text : List UInt8) : Decidable (s.Fits text) := by
  unfold Fits
  infer_instance

/-- `send_mining_set_difficulty`. The difficulty counts as sent if it fits or not. -/
def sendMiningSetDifficulty : ClientState :=
  let diff := if s.m.currentDiff = 0 then cfg.vardiffMin else s.m.currentDiff
  let text := setDifficultyText diff
  { s.send text with
    m := { s.m with currentDiff := diff, lastSentDiff := diff }
    ledger := if s.Fits text then .announced diff :: s.ledger else s.ledger }

/-- The difficulty of a quick change is set. -/
def quickened (ratio : UInt64) : ClientState :=
  { s with m := { s.m with currentDiff := quickDiff s.m.currentDiff ratio } }

/-- `stratum_update_vardiff`; a quick change sends a notify. -/
def updateVardiff (notifyQuick : ClientState → ClientState) (noQuick : Bool) : ClientState :=
  match vardiffMove cfg s.m noQuick s.loopTsms with
  | .keep => s
  | .lower =>
    { s with
      m := { s.m with currentDiff := loweredDiff cfg s.m }.resetVardiffStats s.loopTsms }
  | .raise =>
    { s with
      m := { s.m with currentDiff := s.m.currentDiff <<< 1 }.resetVardiffStats s.loopTsms }
  | .quick ratio =>
    let s := notifyQuick (s.quickened ratio)
    { s with m := s.m.resetVardiffStats s.loopTsms }

end ClientState

/-- The target of a notify, for its job or for the quick change. -/
def MinerDiffs.noteTarget (m : MinerDiffs) (job : NotifiedJob) (quickdiff : Bool) : MinerDiffs :=
  let target := shareTarget job.isBlake2b m.lastSentDiff
  if quickdiff then
    { m with quickdiffActive := true, quickdiffValue := m.lastSentDiff, quickdiffTarget := target }
  else
    { m with
      stratumJobDiffs := Function.update m.stratumJobDiffs job.globalIndex m.lastSentDiff
      stratumJobTargets := Function.update m.stratumJobTargets job.globalIndex target
      quickdiffActive := false }

namespace ClientState

variable (cfg : VardiffConfig) (s : ClientState)

/-- The difficulty a notify is sent with. A change that is not quick has no notify of its
    own. -/
def adjusted (job : NotifiedJob) (quickdiff : Bool) : ClientState :=
  let s := if quickdiff then s else s.updateVardiff cfg id true
  if job.isDatumJob && s.m.currentDiff < s.overrideVardiffMin then
    { s with m := { s.m with currentDiff := s.overrideVardiffMin } }
  else s

/-- `send_mining_notify` up to the first piece of the message. -/
def announced (job : NotifiedJob) (quickdiff : Bool) : ClientState :=
  let s := s.adjusted cfg job quickdiff
  let s := if s.m.lastSentDiff ≠ s.m.currentDiff then s.sendMiningSetDifficulty cfg else s
  { s with
    m := s.m.noteTarget job quickdiff
    ledger := .notified job.globalIndex job.isBlake2b quickdiff
      (if job.isDatumJob then s.overrideVardiffMin else 0) :: s.ledger }

def notifyCall (clean quickdiff newBlock : Bool) (userSiaCoinb1 : Option (List UInt8)) :
    NotifyCall where
  clean
  quickdiff
  newBlock
  fullCoinbaseReady := s.fullCoinbaseReady
  coinbaseSelection := s.m.coinbaseSelection
  lastSentDiff := s.m.lastSentDiff
  userSiaCoinb1

/-- `send_mining_notify`; the miner may have a coinbase of its own. Empty work is more
    important than a quick change. -/
def sendMiningNotify (clean quickdiff newBlock : Bool) (userSiaCoinb1 : Option (List UInt8)) :
    ClientState :=
  match s.curStratumJob with
  | none => s
  | some job =>
    let quickdiff := quickdiff && !newBlock
    let s := s.announced cfg job quickdiff
    let pieces := notifyPieces job (s.notifyCall clean quickdiff newBlock userSiaCoinb1)
    s.sendPieces pieces [pieces.flatten]

/-! ## Requests -/

/-- `send_error_to_client`. -/
def sendErrorToClient (id : RequestId) (error : ErrorReply) : ClientState :=
  s.send (errorText id error)

/-- `job_diff`. -/
def jobDiff (share : ShareCall) : UInt64 :=
  if share.quickdiff then s.m.quickdiffValue else s.m.stratumJobDiffs share.jobIndex

/-- The target a share is compared against. -/
def shareLimit (share : ShareCall) : Hash32 :=
  if share.quickdiff then s.m.quickdiffTarget else s.m.stratumJobTargets share.jobIndex

/-- What an accepted share counts for. -/
def credit (share : ShareCall) : ClientState :=
  let s' := s.send (acceptText share.id)
  { s' with
    m := { s'.m with
      shareCountSinceSnap := s'.m.shareCountSinceSnap + 1
      shareDiffSinceSnap := s'.m.shareDiffSinceSnap + s.jobDiff share }
    ledger := .credited (s.jobDiff share) (s.shareLimit share) :: s'.ledger }

/-- The share passes every check. -/
def accepts (share : ShareCall) : Bool :=
  share.refusedBefore.isNone && share.refusedBehind.isNone &&
    compareHashes share.shareHash.bytes (s.shareLimit share).bytes ≤ 0

/-- `client_mining_submit`. -/
def clientMiningSubmit (share : ShareCall) (userSiaCoinb1 : Option (List UInt8)) : ClientState :=
  match share.refusedBefore with
  | some error => s.sendErrorToClient share.id error
  | none =>
    if compareHashes share.shareHash.bytes (s.shareLimit share).bytes > 0 then
      s.sendErrorToClient share.id .highHash
    else
      match share.refusedBehind with
      | some error => s.sendErrorToClient share.id error
      | none =>
        (s.credit share).updateVardiff cfg
          (fun s => s.sendMiningNotify cfg true true false userSiaCoinb1) false

/-- A share is credited, which may change the difficulty, or refused. -/
theorem clientMiningSubmit_cases (share : ShareCall) (userSiaCoinb1 : Option (List UInt8)) :
    (s.accepts share = true ∧ s.clientMiningSubmit cfg share userSiaCoinb1 =
      (s.credit share).updateVardiff cfg
        (fun s => s.sendMiningNotify cfg true true false userSiaCoinb1) false) ∨
    ∃ error, s.clientMiningSubmit cfg share userSiaCoinb1 =
      s.sendErrorToClient share.id error := by
  unfold clientMiningSubmit accepts
  cases share.refusedBefore with
  | some error => exact Or.inr ⟨error, rfl⟩
  | none =>
    by_cases hhigh : compareHashes share.shareHash.bytes (s.shareLimit share).bytes > 0
    · right
      dsimp only
      rw [if_pos hhigh]
      exact ⟨.highHash, rfl⟩
    · dsimp only
      rw [if_neg hhigh]
      cases share.refusedBehind with
      | some error => exact Or.inr ⟨error, rfl⟩
      | none =>
        left
        simp [Int.not_lt.mp hhigh]

end ClientState

/-- The mask of `mining.configure`. -/
def versionMask (maskText : Option (List UInt8)) : UInt32 :=
  match maskText with
  | none => 0x1fffe000
  | some text => (strtoul16 text).toUInt32 &&& 0x1fffe000

/-- The loop over the extensions: what `sx` holds, and `sxl`. A second mask is written
    behind the first one, and a third over the second. -/
def maskMessages (names : List (List UInt8)) (mask : UInt32) : List UInt8 × Nat :=
  names.foldl (fun (state : List UInt8 × Nat) name =>
    if name = ascii "version-rolling" then
      (state.1.take state.2 ++ versionMaskText mask, (versionMaskText mask).length)
    else state) ([], 0)

/-- `strncpy_uachars` into the 127 bytes of a user agent. -/
def userAgent (text : List UInt8) : List UInt8 :=
  (text.filter fun ch =>
    isDigit ch || (0x41 ≤ ch && ch ≤ 0x5a) || (0x61 ≤ ch && ch ≤ 0x7a) ||
    (ascii ".-_=@, |/:<>';").contains ch).take 126

/-- `datum_stratum_fingerprint_by_UA`. -/
def MinerDiffs.fingerprintByUA (m : MinerDiffs) (useragent : List UInt8) : MinerDiffs :=
  let starts (text : String) : Bool := (ascii text).isPrefixOf useragent
  if starts "Antminer A3" then { m with coinbaseSelection := 0 }
  else if starts "Antminer S21/" then { m with coinbaseSelection := 5 }
  else if starts "PowerPlay-BM/" then { m with coinbaseSelection := 4 }
  else if starts "xminer-1." then { m with coinbaseSelection := 4 }
  else if starts "whatsminer/v1" then { m with coinbaseSelection := 3 }
  else if useragent.tails.any (ascii "bosminer-plus-tuner").isPrefixOf then
    { m with coinbaseSelection := 5 }
  else if starts "NiceHash/" then
    { m with currentDiff := 524288, forcedHighMinDiff := 524288, coinbaseSelection := 1 }
  else if starts "bitaxe" then { m with coinbaseSelection := 3 }
  else m

/-- What `client_mining_subscribe` sets in front of its reply; the setting is
    `stratum_v1_fingerprint_miners`. -/
def MinerDiffs.beginSubscribe (cfg : VardiffConfig) (m : MinerDiffs) (fingerprintMiners : Bool)
    (useragent : Option (List UInt8)) : MinerDiffs :=
  let agent := (useragent.map userAgent).getD []
  let m := { m with currentDiff := cfg.vardiffMin, coinbaseSelection := 2 }
  if fingerprintMiners && !agent.isEmpty then
    let m := m.fingerprintByUA agent
    if m.currentDiff < cfg.vardiffMin then { m with currentDiff := cfg.vardiffMin } else m
  else m

namespace ClientState

variable (cfg : VardiffConfig) (s : ClientState)

/-- `client_mining_configure`. -/
def clientMiningConfigure (id : RequestId) (names : List (List UInt8))
    (maskText : Option (List UInt8)) : ClientState :=
  let mask := versionMask maskText
  let versionRolling := names.contains (ascii "version-rolling")
  let minimumDifficulty := names.contains (ascii "minimum-difficulty")
  let s := s.send (configureText id versionRolling minimumDifficulty mask)
  let masks := (maskMessages names mask).1
  if (maskMessages names mask).2 ≠ 0 then
    s.sendPieces [masks]
      (List.replicate (masks.length / (versionMaskText mask).length) (versionMaskText mask))
  else s

/-- The reply of `client_mining_authorize`. -/
def clientMiningAuthorize (id : RequestId) (refused : Bool) : ClientState :=
  s.send (if refused then refuseText id else acceptText id)

/-- `client_mining_subscribe` up to the reply. -/
def subscribing (fingerprintMiners : Bool) (id : RequestId) (sid : UInt32)
    (useragent : Option (List UInt8)) : ClientState :=
  { s with m := s.m.beginSubscribe cfg fingerprintMiners useragent }.send (subscribeText id sid)

/-- What stands between the reply and the first notify. -/
def subscribed : ClientState :=
  let s := s.sendMiningSetDifficulty cfg
  { s with m := { s.m with subscribed := true } }

/-- `client_mining_subscribe`. -/
def clientMiningSubscribe (fingerprintMiners : Bool) (id : RequestId) (sid : UInt32)
    (useragent userSiaCoinb1 : Option (List UInt8)) : ClientState :=
  if s.m.subscribed then s
  else
    let s := (s.subscribing cfg fingerprintMiners id sid useragent).subscribed cfg
    let s := s.sendMiningNotify cfg true false false userSiaCoinb1
    { s with m := s.m.resetVardiffStats s.loopTsms }

end ClientState

/-! ## Runs -/

/-- What happens to a client and its thread. -/
inductive ClientEvent where
  | subscribe (id : RequestId) (sid : UInt32) (useragent userSiaCoinb1 : Option (List UInt8))
  | authorize (id : RequestId) (refused : Bool)
  | configure (id : RequestId) (names : List (List UInt8)) (maskText : Option (List UInt8))
  | submit (share : ShareCall) (userSiaCoinb1 : Option (List UInt8))
  | unknownMethod (id : RequestId)
  /-- from the loop of the thread -/
  | notify (clean newBlock : Bool) (userSiaCoinb1 : Option (List UInt8))
  | newJob (job : NotifiedJob)
  | coinbaseReady (ready : Bool)
  | elapse (tsms : UInt64)
  /-- the minimum the pool sends, which is a power of two once it is stored -/
  | poolMin (diff : UInt64) (powerOfTwo : IsPowerOfTwo diff)
  /-- the socket takes so many bytes -/
  | transmit (count : Nat)
  | close

namespace ClientState

variable (cfg : VardiffConfig) (fingerprintMiners : Bool) (s : ClientState)

/-- What an open connection does. -/
def handle : ClientEvent → Option ClientState
  | .subscribe id sid useragent userSia =>
    some (s.clientMiningSubscribe cfg fingerprintMiners id sid useragent userSia)
  | .authorize id refused => some (s.clientMiningAuthorize id refused)
  | .configure id names maskText => some (s.clientMiningConfigure id names maskText)
  | .submit share userSia => some (s.clientMiningSubmit cfg share userSia)
  | .unknownMethod id => some (s.sendErrorToClient id .methodNotFound)
  | .notify clean newBlock userSia =>
    if s.m.subscribed then some (s.sendMiningNotify cfg clean false newBlock userSia) else none
  | .newJob job => some { s with curStratumJob := some job }
  | .coinbaseReady ready => some { s with fullCoinbaseReady := ready }
  | .elapse tsms => some { s with loopTsms := tsms }
  | .poolMin diff _ => some { s with overrideVardiffMin := diff }
  | .transmit count =>
    if count ≤ s.box.queued.length then some { s with box := s.box.transmit count } else none
  | .close => some { s with closed := true }

def step (event : ClientEvent) : Option ClientState :=
  if s.closed then none else s.handle cfg fingerprintMiners event

end ClientState

/-- The runs of a client. -/
def clientSystem (cfg : VardiffConfig) (fingerprintMiners : Bool) :
    System ClientState ClientEvent where
  step s event := s.step cfg fingerprintMiners event

/-- A new connection: `datum_stratum_v1_socket_thread_client_new` has cleared the miner's
    data, and nothing waits in the write buffer. -/
structure ClientState.IsNew (s : ClientState) : Prop where
  not_subscribed : s.m.subscribed = false
  currentDiff_eq : s.m.currentDiff = 0
  lastSentDiff_eq : s.m.lastSentDiff = 0
  diffs_eq : ∀ slot, s.m.stratumJobDiffs slot = 0
  targets_eq : ∀ slot, (s.m.stratumJobTargets slot).bytes = List.replicate 32 0
  shareCount_eq : s.m.shareCountSinceSnap = 0
  shareDiff_eq : s.m.shareDiffSinceSnap = 0
  shareSnap_eq : s.m.shareSnapTsms = 0
  not_quickdiff : s.m.quickdiffActive = false
  quickdiff_eq : s.m.quickdiffValue = 0
  quickdiffTarget_eq : s.m.quickdiffTarget.bytes = List.replicate 32 0
  forcedMin_eq : s.m.forcedHighMinDiff = 0
  nothing_sent : s.box = ⟨[], []⟩
  nothing_built : s.built = []
  ledger_eq : s.ledger = []
  poolMin_admitted : s.overrideVardiffMin = 0 ∨ IsPowerOfTwo s.overrideVardiffMin
  not_closed : s.closed = false

end ChirpGateway
