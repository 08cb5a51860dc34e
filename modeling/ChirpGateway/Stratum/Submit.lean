import ChirpGateway.Coinbase.UserCoinbase
import ChirpGateway.Rpc.Json

/-!
# Shares that miners submit

`client_mining_submit` (`datum_stratum.c:998-1395`) for jobs on a template of
header version 2: what a message asks for, the coinbase that is chosen for it, and
the hash of its work.
-/

namespace ChirpGateway

open Bytes Wire

/-! ## Numbers in text -/

/-- A hexadecimal digit of either case. -/
def hexDigit (ch : UInt8) : Option Nat := (Hex.digitValue 97 ch).or (Hex.digitValue 65 ch)

/-- The number the leading hexadecimal digits denote. -/
def leadingHex : (n : Nat) → List UInt8 → Nat
  | n, [] => n
  | n, ch :: rest =>
    match hexDigit ch with
    | none => n
    | some digit => leadingHex (16 * n + digit) rest

/-- The text behind `0x`, where a digit follows it. -/
def skipHexMark (text : List UInt8) : List UInt8 :=
  match text with
  | zero :: x :: digit :: rest =>
    if zero = 48 && (x = 120 || x = 88) && (hexDigit digit).isSome then digit :: rest else text
  | _ => text

/-- `strtoul` to base 16, with the saturation of 64 bits. -/
def strtoul16 (text : List UInt8) : UInt64 :=
  let text := text.dropWhile isSpace
  let (negative, text) :=
    match text with
    | ch :: rest =>
      if ch = 45 then (true, rest) else if ch = 43 then (false, rest) else (false, text)
    | [] => (false, [])
  let n := leadingHex 0 (skipHexMark text)
  if n ≥ 2 ^ 64 then 0xffffffffffffffff
  else if negative then 0 - UInt64.ofNat n
  else UInt64.ofNat n

/-- `hex2bin_uchar` over a text of pairs. -/
def hexBytes (text : List UInt8) : List UInt8 := Hex.decode text

/-! ## What a message asks for -/

/-- Why a share is rejected. -/
inductive SubmitError where
  | unknownWork
  | badVersion
  | staleBlock
  | timeTooOld
  | timeTooNew
  | highHash
  | stale
  | duplicate
  deriving DecidableEq, Repr

/-- The fields of `T_DATUM_MINER_DATA` that a submit reads. -/
structure MinerData where
  sidInv : UInt32
  /-- `user_script`, if `has_user_addr` -/
  userScript : Option (List UInt8)
  extensionVersionRolling : Bool
  extensionVersionRollingMask : UInt32
  lastSentDiff : UInt64
  stratumJobDiffs : Fin 256 → UInt64
  stratumJobTargets : Fin 256 → Hash32
  quickdiffValue : UInt64
  quickdiffTarget : Hash32

/-- `json_array_get` and `json_string_value`. -/
def stringParam (params : Json) (i : Nat) : Option (List UInt8) :=
  match params with
  | .array elements =>
    match elements[i]? with
    | some (.string text) => some text
    | _ => none
  | _ => none

/-- A job id, taken apart. -/
structure QuotedJob where
  quickdiff : Bool
  emptyWork : Bool
  /-- the 16 characters behind a prefix -/
  text : List UInt8

/-- The prefix of a job id: `Q` for a quick change of difficulty, `N` for empty
    work. -/
def quotedJob (jobId : List UInt8) : Option QuotedJob :=
  if jobId.length = 16 then some { quickdiff := false, emptyWork := false, text := jobId }
  else if jobId.length = 17 && jobId.head? = some 81 then
    some { quickdiff := true, emptyWork := false, text := jobId.tail }
  else if jobId.length = 17 && jobId.head? = some 78 then
    some { quickdiff := false, emptyWork := true, text := jobId.tail }
  else none

/-- Two digits of a job id. -/
def QuotedJob.pair (quoted : QuotedJob) (offset : Nat) : Nat :=
  (Hex.lookup (quoted.text.getD offset 0) (quoted.text.getD (offset + 1) 0)).toNat

/-- `g_job_index`; `STRATUM_JOB_INDEX_XOR` is 0xC0DE. -/
def QuotedJob.jobIndex (quoted : QuotedJob) : Nat :=
  (quoted.pair 10 * 256 + quoted.pair 12) ^^^ 0xc0de

/-- `coinbase_index`. -/
def QuotedJob.coinbaseIndex (quoted : QuotedJob) : Nat := quoted.pair 14

/-- The job an id quotes: the slot holds one with the same time in its id. -/
def QuotedJob.findJob (quoted : QuotedJob) (jobs : Fin 256 → Option StratumJob) :
    Option (Fin 256 × StratumJob) :=
  if h : quoted.jobIndex < 256 then
    (jobs ⟨quoted.jobIndex, h⟩).bind fun job =>
      if job.jobId.take 8 = quoted.text.take 8 then some (⟨quoted.jobIndex, h⟩, job) else none
  else
    none

theorem QuotedJob.eq_some_of_findJob {quoted : QuotedJob} {jobs : Fin 256 → Option StratumJob}
    {slot : Fin 256} {job : StratumJob} (h : quoted.findJob jobs = some (slot, job)) :
    jobs slot = some job := by
  unfold QuotedJob.findJob at h
  split at h
  · obtain ⟨found, hslot, hfound⟩ := Option.bind_eq_some_iff.mp h
    split at hfound
    · obtain ⟨rfl, rfl⟩ := Prod.mk.inj (Option.some.inj hfound)
      exact hslot
    · cases hfound
  · cases h

/-- The work of a share. -/
structure SubmittedWork where
  jobIndex : Fin 256
  job : StratumJob
  quickdiff : Bool
  emptyWork : Bool
  bver : UInt32
  extranonce : List UInt8
  coinbase : StratumCoinbase
  userLotto : Bool
  ntime : List UInt8
  nonce : List UInt8
  extranonce_length : extranonce.length = 12
  ntime_length : ntime.length = 8
  nonce_length : nonce.length = 8

/-- `bver`: the version of the job with the bits a miner rolls. -/
def rolledVersion (m : MinerData) (job : StratumJob) (params : Json) :
    Except SubmitError UInt32 :=
  if m.extensionVersionRolling then
    match stringParam params 5 with
    | none => .error .badVersion
    | some text =>
      let vroll := (strtoul16 text).toUInt32
      if vroll &&& m.extensionVersionRollingMask ≠ vroll then .error .badVersion
      else .ok (job.blockTemplate.version ||| vroll)
  else
    .ok job.blockTemplate.version

/-- `extranonce_bin`: the session's half and the miner's. -/
def submittedExtranonce (m : MinerData) (params : Json) :
    Except SubmitError { bytes : List UInt8 // bytes.length = 12 } :=
  match stringParam params 2 with
  | none => .error .unknownWork
  | some text =>
    if h : text.length = 16 then
      .ok ⟨leBytes 4 m.sidInv.toNat ++ hexBytes text, by
        rw [List.length_append, length_leBytes, hexBytes, Hex.length_decode, h]⟩
    else
      .error .unknownWork

/-- A time or a nonce: 8 characters are a number, 16 are bytes. -/
def submittedField (params : Json) (i : Nat) :
    Except SubmitError { bytes : List UInt8 // bytes.length = 8 } :=
  match stringParam params i with
  | none => .error .unknownWork
  | some text =>
    if text.length = 8 then
      .ok ⟨leBytes 8 (strtoul16 text).toUInt32.toNat, length_leBytes _ _⟩
    else if h : text.length = 16 then
      .ok ⟨hexBytes text, by rw [hexBytes, Hex.length_decode, h]⟩
    else
      .error .unknownWork

/-- The coinbase for a share, and whether it is the miner's own. -/
def chosenCoinbase (userCoinbase : Option StratumCoinbase) (job : StratumJob) (emptyWork : Bool)
    (coinbaseIndex : Nat) : Except SubmitError (StratumCoinbase × Bool) :=
  if h : coinbaseIndex < 6 then
    if emptyWork then .ok (job.subsidyOnlyCoinbase, false)
    else
      match userCoinbase with
      | some coinbase => .ok (coinbase, true)
      | none => .ok (job.coinbase ⟨coinbaseIndex, h⟩, false)
  else if emptyWork && coinbaseIndex = 255 then .ok (job.subsidyOnlyCoinbase, false)
  else .error .unknownWork

section Read

variable (decode : List UInt8 → Option (List UInt8)) (config : LottoConfig) (m : MinerData)
variable (jobs : Fin 256 → Option StratumJob)

/-- `client_mining_submit` up to the hash. -/
def readSubmit (params : Json) : Except SubmitError SubmittedWork :=
  match stringParam params 1 with
  | none => .error .unknownWork
  | some jobId =>
    match quotedJob jobId with
    | none => .error .unknownWork
    | some quoted =>
      match quoted.findJob jobs with
      | none => .error .unknownWork
      | some (jobIndex, job) => do
        let bver ← rolledVersion m job params
        let extranonce ← submittedExtranonce m params
        let (coinbase, userLotto) ← chosenCoinbase (lottoCoinbase decode config job m.userScript)
          job quoted.emptyWork quoted.coinbaseIndex
        let ntime ← submittedField params 3
        let nonce ← submittedField params 4
        .ok {
          jobIndex, job, quickdiff := quoted.quickdiff, emptyWork := quoted.emptyWork, bver
          extranonce := extranonce.val, coinbase, userLotto
          ntime := ntime.val, nonce := nonce.val
          extranonce_length := extranonce.property
          ntime_length := ntime.property
          nonce_length := nonce.property }

/-- What was read for a share. -/
structure SubmittedWork.ReadFrom (work : SubmittedWork) (params : Json) (quoted : QuotedJob) :
    Prop where
  jobId : (stringParam params 1).bind quotedJob = some quoted
  job : quoted.findJob jobs = some (work.jobIndex, work.job)
  quickdiff : work.quickdiff = quoted.quickdiff
  emptyWork : work.emptyWork = quoted.emptyWork
  bver : rolledVersion m work.job params = .ok work.bver
  extranonce : submittedExtranonce m params = .ok ⟨work.extranonce, work.extranonce_length⟩
  coinbase : chosenCoinbase (lottoCoinbase decode config work.job m.userScript) work.job
    work.emptyWork quoted.coinbaseIndex = .ok (work.coinbase, work.userLotto)
  ntime : submittedField params 3 = .ok ⟨work.ntime, work.ntime_length⟩
  nonce : submittedField params 4 = .ok ⟨work.nonce, work.nonce_length⟩

variable {decode config m jobs}

/-- A computation that succeeds has a first step that succeeds. -/
theorem ok_of_bind {ε α β : Type} {first : Except ε α} {rest : α → Except ε β}
    {result : β}
    (h : first >>= rest = .ok result) :
    ∃ value, first = .ok value ∧ rest value = .ok result := by
  cases first with
  | error reason => cases h
  | ok value => exact ⟨value, rfl, h⟩

theorem readFrom_of_readSubmit {params : Json} {work : SubmittedWork}
    (h : readSubmit decode config m jobs params = .ok work) :
    ∃ quoted, work.ReadFrom decode config m jobs params quoted := by
  unfold readSubmit at h
  split at h
  · cases h
  · next jobId hjobId =>
    split at h
    · cases h
    · next quoted hquoted =>
      split at h
      · cases h
      · next jobIndex job hfound =>
        obtain ⟨bver, hbver, h⟩ := ok_of_bind h
        obtain ⟨extranonce, hextranonce, h⟩ := ok_of_bind h
        obtain ⟨⟨coinbase, userLotto⟩, hcoinbase, h⟩ := ok_of_bind h
        obtain ⟨ntime, hntime, h⟩ := ok_of_bind h
        obtain ⟨nonce, hnonce, h⟩ := ok_of_bind h
        cases h
        refine ⟨quoted, ?_, hfound, rfl, rfl, hbver, hextranonce, hcoinbase, hntime, hnonce⟩
        rw [hjobId, Option.bind_some, hquoted]

end Read

/-! ## Its hash -/

section Hashes

variable (sha256 : List UInt8 → Hash32) (blake2b : List UInt8 → Hash32)
variable (work : SubmittedWork)

/-- The commitment the share is hashed over. -/
def SubmittedWork.commitment : Hash32 :=
  if work.userLotto then commitForCoinbase sha256 work.job work.coinbase
  else blake2bCommitment sha256 work.job

/-- `work`. -/
def SubmittedWork.header : List UInt8 :=
  workHeader sha256 work.job.blockTemplate.previousblockhashBin work.nonce work.ntime
    (workRoot blake2b (work.commitment sha256) work.extranonce)

/-- `share_hash`. -/
def SubmittedWork.shareHash : List UInt8 :=
  powHashLe sha256 blake2b (work.header sha256 blake2b) work.job.blockTemplate.xorKey
    work.job.blockTemplate.xorKeyMaskClearBits

/-- The share is a block. -/
def SubmittedWork.isBlock : Prop :=
  compareHashes (work.shareHash sha256 blake2b) work.job.blockTarget.bytes ≤ 0

end Hashes

end ChirpGateway
