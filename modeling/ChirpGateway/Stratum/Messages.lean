import ChirpGateway.Lib.JsonText
import ChirpGateway.Stratum.Submit

/-!
# Messages to a miner

What the gateway writes to a Stratum client (`datum_stratum.c:704-790`, `1476-1652`,
`1741-1879` and `1995-2000`): the replies, the difficulty, and the pieces of
`mining.notify`. None of the texts comes near the size of the buffer it is printed to.
-/

namespace ChirpGateway

open Bytes JsonText

/-! ## Replies -/

/-- The id of a request, which is echoed: an integer, or a string as `json_dumps`
    writes it, for which `request_id_json` has room. -/
inductive RequestId where
  | integer (id : UInt64)
  | string (body : List UInt8) (isBody : IsBody body) (short : body.length ≤ 126)

/-- `stratum_rpc_id_text`. -/
def RequestId.idText : RequestId → List UInt8
  | .integer id => decimal id.toNat
  | .string body _ _ => quoted body

/-- What a request is refused with. -/
inductive ErrorReply where
  | unknownWork
  | highHash
  | staleWork
  | timeTooOld
  | timeTooNew
  | staleBlock
  | hNotZero
  | badVersion
  | duplicate
  | methodNotFound
  deriving DecidableEq

/-- The text `send_error_to_client` is given. -/
def ErrorReply.text : ErrorReply → List UInt8
  | .unknownWork => ascii "[20,\"unknown-work\",null]"
  | .highHash => ascii "[23,\"high-hash\",null]"
  | .staleWork => ascii "[21,\"stale-work\",null]"
  | .timeTooOld => ascii "[21,\"time-too-old\",null]"
  | .timeTooNew => ascii "[21,\"time-too-new\",null]"
  | .staleBlock => ascii "[21,\"stale-prevblk\",null]"
  | .hNotZero => ascii "[23,\"H-not-zero\",null]"
  | .badVersion => ascii "[23,\"bad-version\",null]"
  | .duplicate => ascii "[22,\"duplicate\",null]"
  | .methodNotFound => ascii "[-3,\"Method not found\",null]"

/-- `send_error_to_client`. -/
def errorText (id : RequestId) (error : ErrorReply) : List UInt8 :=
  ascii "\x7b\"error\":" ++ error.text ++ ascii ",\"id\":" ++ id.idText ++
    ascii ",\"result\":null\x7d\n"

/-- The reply to a share that is accepted, and to an authorization. -/
def acceptText (id : RequestId) : List UInt8 :=
  ascii "\x7b\"error\":null,\"id\":" ++ id.idText ++ ascii ",\"result\":true\x7d\n"

/-- The reply to a user name that is no address, where one is needed. -/
def refuseText (id : RequestId) : List UInt8 :=
  ascii ("\x7b\"error\":[20,\"personal-lotto: username must be your BTC address\",null]," ++
    "\"id\":") ++ id.idText ++ ascii ",\"result\":false\x7d\n"

/-- A number of 32 bits in eight digits. -/
def hex8 (n : UInt32) : List UInt8 := Hex.encode (Wire.leBytes 4 n.toNat).reverse

/-- The reply to `mining.subscribe`. -/
def subscribeText (id : RequestId) (sid : UInt32) : List UInt8 :=
  ascii "\x7b\"error\":null,\"id\":" ++ id.idText ++
    ascii ",\"result\":[[[\"mining.notify\",\"" ++ hex8 sid ++
    ascii "1\"],[\"mining.set_difficulty\",\"" ++ hex8 sid ++ ascii "2\"]],\"" ++ hex8 sid ++
    ascii "\",8]\x7d\n"

/-- The reply to `mining.configure`. -/
def configureText (id : RequestId) (versionRolling minimumDifficulty : Bool) (mask : UInt32) :
    List UInt8 :=
  ascii "\x7b\"error\":null,\"id\":" ++ id.idText ++ ascii ",\"result\":\x7b" ++
    (if versionRolling then
      ascii "\"version-rolling\":true,\"version-rolling.mask\":\"" ++ hex8 mask ++ ascii "\""
    else []) ++
    (if minimumDifficulty then ascii ",\"minimum-difficulty\":false" else []) ++
    ascii "\x7d\x7d\n"

def versionMaskText (mask : UInt32) : List UInt8 :=
  ascii "\x7b\"id\":null,\"method\":\"mining.set_version_mask\",\"params\":[\"" ++ hex8 mask ++
    ascii "\"]\x7d\n"

/-- The text of `send_mining_set_difficulty`. -/
def setDifficultyText (diff : UInt64) : List UInt8 :=
  ascii "\x7b\"id\":null,\"method\":\"mining.set_difficulty\",\"params\":[" ++ decimal diff.toNat ++
    ascii "]\x7d\n"

/-! ## `mining.notify` -/

/-- The fields of a job that `send_mining_notify` reads. Its texts are hexadecimal, as
    the gateway writes them and the node sends them. -/
structure NotifiedJob where
  globalIndex : Fin 256
  jobId : List UInt8
  prevhash : List UInt8
  version : List UInt8
  nbits : List UInt8
  ntime : List UInt8
  merklebranchesHex : List (List UInt8)
  /-- `stratum_job_is_blake2b` -/
  isBlake2b : Bool
  isDatumJob : Bool
  jobState : Nat
  coinbase : Fin 6 → StratumCoinbase
  subsidyOnlyCoinbase : StratumCoinbase
  targetPotIndex : Nat
  blake2bCoinbaseIndex : Fin 6
  blake2bSiaCoinb1 : List UInt8
  plain : ∀ text ∈ jobId :: prevhash :: version :: nbits :: ntime :: merklebranchesHex,
    text.all isPlain = true

/-- `JOB_STATE_FULL_PRIORITY_WAIT_COINBASER`. -/
def jobStateFullPriorityWaitCoinbaser : Nat := 4

/-- `floorPoT`. -/
def floorPoT (x : UInt64) : UInt8 := if x = 0 then 0 else UInt8.ofNat (Nat.log2 x.toNat)

/-- What a notify says beside its job. -/
structure NotifyCall where
  clean : Bool
  quickdiff : Bool
  newBlock : Bool
  /-- `full_coinbase_ready` of the thread -/
  fullCoinbaseReady : Bool
  coinbaseSelection : Fin 6
  lastSentDiff : UInt64
  /-- `user_sia_coinb1`, where the miner has a coinbase of its own -/
  userSiaCoinb1 : Option (List UInt8)

section Notify

variable (job : NotifiedJob) (call : NotifyCall)

/-- `cbselect`. -/
def cbselect : Fin 6 :=
  if job.isBlake2b then job.blake2bCoinbaseIndex
  else if call.newBlock then 0
  else if job.jobState ≥ jobStateFullPriorityWaitCoinbaser && call.fullCoinbaseReady then
    call.coinbaseSelection
  else 0

/-- The job id, with its prefix and the coinbase. -/
def notifyId : List UInt8 :=
  if call.quickdiff then ascii "Q" ++ job.jobId ++ Hex.encodeByte (UInt8.ofNat (cbselect job call))
  else if call.newBlock && !job.isBlake2b then ascii "N" ++ job.jobId ++ Hex.encodeByte 255
  else job.jobId ++ Hex.encodeByte (UInt8.ofNat (cbselect job call))

/-- The coinbase that is sent. -/
def notifyCoinbase : StratumCoinbase :=
  if !call.quickdiff && call.newBlock && !job.isBlake2b then job.subsidyOnlyCoinbase
  else job.coinbase (cbselect job call)

/-- `coinb1` with the byte for the share target, in one piece or, for a quick change of
    difficulty, with another end. -/
def coinb1Pieces : List (List UInt8) :=
  let coinbase := notifyCoinbase job call
  let cb1 := Hex.encode (coinbase.coinb1Bin.set job.targetPotIndex (floorPoT call.lastSentDiff))
  if call.quickdiff then
    [cb1.take (2 * coinbase.coinb1Bin.length - 4),
      if coinbase.coinb1Bin.drop (coinbase.coinb1Bin.length - 2) ≠ [0x44, 0x51] then ascii "4451"
      else ascii "BBAE"]
  else [cb1]

/-- What stands around the coinbases. -/
def notifyFront : List (List UInt8) :=
  [ascii "\x7b\"id\":null,\"method\":\"mining.notify\",\"params\":[",
    ascii "\"" ++ notifyId job call ++ ascii "\",\"" ++ job.prevhash ++ ascii "\",\""]

/-- The version, the bits and the time, with what stands before them. -/
def timesText (before : List UInt8) : List UInt8 :=
  before ++ ascii "\"" ++ job.version ++ ascii "\",\"" ++ job.nbits ++ ascii "\",\"" ++ job.ntime ++
    ascii "\","

def cleanText : List UInt8 :=
  if call.clean || call.quickdiff || call.newBlock then ascii "true]\x7d\n"
  else ascii "false]\x7d\n"

/-- `merklebranches_full`, or what stands in its place. -/
def branchesText : List UInt8 :=
  if call.newBlock then ascii "[]" else arrayText (job.merklebranchesHex.map quoted)

/-- The pieces of `mining.notify`, in the order they are appended. -/
def notifyPieces : List (List UInt8) :=
  if job.isBlake2b then
    notifyFront job call ++
      [Hex.encode (call.userSiaCoinb1.getD job.blake2bSiaCoinb1), ascii "\",\"\",[],",
        timesText job [], cleanText call]
  else
    notifyFront job call ++ coinb1Pieces job call ++
      [ascii "\",\"", Hex.encode (notifyCoinbase job call).coinb2Bin, ascii "\",",
        branchesText job call, timesText job (ascii ","), cleanText call]

end Notify

/-! ## Each is a line of JSON -/

theorem RequestId.isValue_idText (id : RequestId) : IsValue id.idText := by
  cases id with
  | integer id => exact .natural _
  | string body isBody _ => exact .string isBody

/-- An array of a number, a reason and a null. -/
theorem isValue_reason {number reason : List UInt8} (hnumber : IsValue number)
    (hreason : reason.all isPlain = true) :
    IsValue (arrayText [number, quoted reason, ascii "null"]) := by
  apply IsValue.array
  simp only [List.forall_mem_cons]
  exact ⟨hnumber, .plainString hreason, .null, by simp⟩

theorem ErrorReply.isValue_text (error : ErrorReply) : IsValue error.text := by
  cases error with
  | unknownWork =>
    exact isValue_reason (.natural 20) (by decide : (ascii "unknown-work").all isPlain = true)
  | highHash =>
    exact isValue_reason (.natural 23) (by decide : (ascii "high-hash").all isPlain = true)
  | staleWork =>
    exact isValue_reason (.natural 21) (by decide : (ascii "stale-work").all isPlain = true)
  | timeTooOld =>
    exact isValue_reason (.natural 21) (by decide : (ascii "time-too-old").all isPlain = true)
  | timeTooNew =>
    exact isValue_reason (.natural 21) (by decide : (ascii "time-too-new").all isPlain = true)
  | staleBlock =>
    exact isValue_reason (.natural 21) (by decide : (ascii "stale-prevblk").all isPlain = true)
  | hNotZero =>
    exact isValue_reason (.natural 23) (by decide : (ascii "H-not-zero").all isPlain = true)
  | badVersion =>
    exact isValue_reason (.natural 23) (by decide : (ascii "bad-version").all isPlain = true)
  | duplicate =>
    exact isValue_reason (.natural 22) (by decide : (ascii "duplicate").all isPlain = true)
  | methodNotFound =>
    exact isValue_reason (.negative 3) (by decide : (ascii "Method not found").all isPlain = true)

theorem all_isPlain_hex8 (n : UInt32) : (hex8 n).all isPlain = true := all_isPlain_encode _

theorem isValue_hex8 (n : UInt32) (suffix : List UInt8) (h : suffix.all isPlain = true) :
    IsValue (quoted (hex8 n ++ suffix)) := by
  apply IsValue.plainString
  rw [List.all_append, all_isPlain_hex8, h]
  rfl

section Replies

variable (id : RequestId)

theorem isLine_errorText (error : ErrorReply) : IsLine (errorText id error) := by
  have htext : errorText id error = objectText [(ascii "error", error.text),
      (ascii "id", id.idText), (ascii "result", ascii "null")] ++ [0x0a] := by
    simp [errorText, objectText, memberText, commas, quoted]
    rfl
  rw [htext]
  apply isLine_object rfl
  simp only [List.forall_mem_cons]
  exact ⟨error.isValue_text, id.isValue_idText, .null, by simp⟩

theorem isLine_acceptText : IsLine (acceptText id) := by
  have htext : acceptText id = objectText [(ascii "error", ascii "null"),
      (ascii "id", id.idText), (ascii "result", ascii "true")] ++ [0x0a] := by
    simp [acceptText, objectText, memberText, commas, quoted]
    rfl
  rw [htext]
  apply isLine_object rfl
  simp only [List.forall_mem_cons]
  exact ⟨.null, id.isValue_idText, .true, by simp⟩

theorem isLine_refuseText : IsLine (refuseText id) := by
  have htext : refuseText id = objectText
      [(ascii "error", arrayText [decimal 20,
        quoted (ascii "personal-lotto: username must be your BTC address"), ascii "null"]),
      (ascii "id", id.idText), (ascii "result", ascii "false")] ++ [0x0a] := by
    simp [refuseText, objectText, memberText, commas, quoted]
    rfl
  rw [htext]
  apply isLine_object rfl
  simp only [List.forall_mem_cons]
  exact ⟨isValue_reason (.natural 20) (by decide), id.isValue_idText, .false, by simp⟩

theorem isLine_subscribeText (sid : UInt32) : IsLine (subscribeText id sid) := by
  have htext : subscribeText id sid = objectText [(ascii "error", ascii "null"),
      (ascii "id", id.idText), (ascii "result", arrayText [arrayText [
        arrayText [quoted (ascii "mining.notify"), quoted (hex8 sid ++ ascii "1")],
        arrayText [quoted (ascii "mining.set_difficulty"), quoted (hex8 sid ++ ascii "2")]],
        quoted (hex8 sid), decimal 8])] ++ [0x0a] := by
    simp [subscribeText, objectText, arrayText, memberText, commas, quoted]
    rfl
  rw [htext]
  apply isLine_object rfl
  have hsid := isValue_hex8 sid [] rfl
  rw [List.append_nil] at hsid
  simp only [List.forall_mem_cons]
  refine ⟨.null, id.isValue_idText, .array ?_, by simp⟩
  simp only [List.forall_mem_cons]
  refine ⟨.array ?_, hsid, .natural 8, by simp⟩
  simp only [List.forall_mem_cons]
  refine ⟨.array ?_, .array ?_, by simp⟩
  · simp only [List.forall_mem_cons]
    exact ⟨.plainString (by decide), isValue_hex8 sid _ (by decide), by simp⟩
  · simp only [List.forall_mem_cons]
    exact ⟨.plainString (by decide), isValue_hex8 sid _ (by decide), by simp⟩

/-- Of the two extensions, the second is never confirmed without the first. -/
theorem isLine_configureText {versionRolling minimumDifficulty : Bool} (mask : UInt32)
    (h : minimumDifficulty = true → versionRolling = true) :
    IsLine (configureText id versionRolling minimumDifficulty mask) := by
  have htext : configureText id versionRolling minimumDifficulty mask =
      objectText [(ascii "error", ascii "null"), (ascii "id", id.idText),
        (ascii "result", objectText (
          (if versionRolling then
            [(ascii "version-rolling", ascii "true"),
              (ascii "version-rolling.mask", quoted (hex8 mask))]
          else []) ++
          if minimumDifficulty then [(ascii "minimum-difficulty", ascii "false")] else []))] ++
        [0x0a] := by
    cases versionRolling <;> cases minimumDifficulty
    · simp [configureText, objectText, memberText, commas, quoted]
      rfl
    · exact absurd (h rfl) (by decide)
    · simp [configureText, objectText, memberText, commas, quoted]
      rfl
    · simp [configureText, objectText, memberText, commas, quoted]
      rfl
  rw [htext]
  apply isLine_object rfl
  have hmask := isValue_hex8 mask [] rfl
  rw [List.append_nil] at hmask
  simp only [List.forall_mem_cons]
  refine ⟨.null, id.isValue_idText, .plainObject ?_ ?_, by simp⟩
  · cases versionRolling <;> cases minimumDifficulty <;> rfl
  · simp only [List.forall_mem_append]
    constructor
    · split
      · simp only [List.forall_mem_cons]
        exact ⟨.true, hmask, by simp⟩
      · simp
    · split
      · simp only [List.forall_mem_cons]
        exact ⟨.false, by simp⟩
      · simp

end Replies

theorem isLine_versionMaskText (mask : UInt32) : IsLine (versionMaskText mask) := by
  have htext : versionMaskText mask = objectText [(ascii "id", ascii "null"),
      (ascii "method", quoted (ascii "mining.set_version_mask")),
      (ascii "params", arrayText [quoted (hex8 mask)])] ++ [0x0a] := by
    simp [versionMaskText, objectText, arrayText, memberText, commas, quoted]
    rfl
  rw [htext]
  apply isLine_object rfl
  have hmask := isValue_hex8 mask [] rfl
  rw [List.append_nil] at hmask
  simp only [List.forall_mem_cons]
  refine ⟨.null, .plainString (by decide), .array ?_, by simp⟩
  simp only [List.forall_mem_cons]
  exact ⟨hmask, by simp⟩

theorem isLine_setDifficultyText (diff : UInt64) : IsLine (setDifficultyText diff) := by
  have htext : setDifficultyText diff = objectText [(ascii "id", ascii "null"),
      (ascii "method", quoted (ascii "mining.set_difficulty")),
      (ascii "params", arrayText [decimal diff.toNat])] ++ [0x0a] := by
    simp [setDifficultyText, objectText, arrayText, memberText, commas, quoted]
    rfl
  rw [htext]
  apply isLine_object rfl
  simp only [List.forall_mem_cons]
  refine ⟨.null, .plainString (by decide), .array ?_, by simp⟩
  simp only [List.forall_mem_cons]
  exact ⟨.natural _, by simp⟩

/-! ## The notify -/

section Notify

variable (job : NotifiedJob) (call : NotifyCall)

/-- The values a notify carries. -/
def notifyParams (coinb1 coinb2 : List UInt8) (branches : List UInt8) : List (List UInt8) :=
  [quoted (notifyId job call), quoted job.prevhash, quoted coinb1, quoted coinb2, branches,
    quoted job.version, quoted job.nbits, quoted job.ntime,
    if call.clean || call.quickdiff || call.newBlock then ascii "true" else ascii "false"]

def notifyLine (params : List (List UInt8)) : List UInt8 :=
  objectText [(ascii "id", ascii "null"), (ascii "method", quoted (ascii "mining.notify")),
    (ascii "params", arrayText params)] ++ [0x0a]

theorem flatten_notifyPieces_of_isBlake2b (h : job.isBlake2b = true) :
    (notifyPieces job call).flatten = notifyLine (notifyParams job call
      (Hex.encode (call.userSiaCoinb1.getD job.blake2bSiaCoinb1)) [] (arrayText [])) := by
  simp [notifyPieces, h, notifyFront, timesText, cleanText, notifyLine, notifyParams, objectText,
    arrayText, memberText, commas, quoted]
  split <;> rfl

theorem flatten_notifyPieces_of_not_isBlake2b (h : job.isBlake2b = false) :
    (notifyPieces job call).flatten = notifyLine (notifyParams job call
      (coinb1Pieces job call).flatten (Hex.encode (notifyCoinbase job call).coinb2Bin)
      (branchesText job call)) := by
  simp [notifyPieces, h, notifyFront, timesText, cleanText, notifyLine, notifyParams, objectText,
    arrayText, memberText, commas, quoted]
  split <;> rfl

theorem all_isPlain_notifyId : (notifyId job call).all isPlain = true := by
  have hjob := job.plain job.jobId (by simp)
  unfold notifyId
  split
  · rw [List.all_append, List.all_append, hjob, all_isPlain_encodeByte]
    rfl
  · split
    · rw [List.all_append, List.all_append, hjob, all_isPlain_encodeByte]
      rfl
    · rw [List.all_append, hjob, all_isPlain_encodeByte]
      rfl

theorem all_isPlain_coinb1Pieces : (coinb1Pieces job call).flatten.all isPlain = true := by
  unfold coinb1Pieces
  dsimp only
  split
  · rw [List.flatten_cons, List.flatten_singleton, List.all_append, Bool.and_eq_true]
    constructor
    · rw [List.all_eq_true]
      intro ch hch
      exact List.all_eq_true.mp (all_isPlain_encode _) ch (List.mem_of_mem_take hch)
    · split
      · decide
      · decide
  · rw [List.flatten_singleton]
    exact all_isPlain_encode _

theorem isLine_notifyLine {coinb1 coinb2 branches : List UInt8} (h1 : coinb1.all isPlain = true)
    (h2 : coinb2.all isPlain = true) (hbranches : IsValue branches) :
    IsLine (notifyLine (notifyParams job call coinb1 coinb2 branches)) := by
  apply isLine_object rfl
  have hclean : IsValue (if call.clean || call.quickdiff || call.newBlock then ascii "true"
      else ascii "false") := by
    split
    · exact .true
    · exact .false
  simp only [List.forall_mem_cons]
  refine ⟨.null, .plainString (by decide), .array ?_, by simp⟩
  unfold notifyParams
  simp only [List.forall_mem_cons]
  exact ⟨.plainString (all_isPlain_notifyId job call), .plainString (job.plain _ (by simp)),
    .plainString h1, .plainString h2, hbranches, .plainString (job.plain _ (by simp)),
    .plainString (job.plain _ (by simp)), .plainString (job.plain _ (by simp)), hclean, by simp⟩

/-- A notify in one piece is a line of JSON. -/
theorem isLine_notifyPieces : IsLine (notifyPieces job call).flatten := by
  cases hkind : job.isBlake2b with
  | true =>
    rw [flatten_notifyPieces_of_isBlake2b job call hkind]
    exact isLine_notifyLine job call (all_isPlain_encode _) rfl (.array (by simp))
  | false =>
    have hbranches : IsValue (branchesText job call) := by
      unfold branchesText
      split
      · exact .array (by simp : ∀ item ∈ ([] : List (List UInt8)), IsValue item)
      · apply IsValue.array
        rw [List.forall_mem_map]
        intro branch hbranch
        exact .plainString (job.plain branch (by simp [hbranch]))
    rw [flatten_notifyPieces_of_not_isBlake2b job call hkind]
    exact isLine_notifyLine job call (all_isPlain_coinb1Pieces job call) (all_isPlain_encode _)
      hbranches

end Notify

end ChirpGateway
