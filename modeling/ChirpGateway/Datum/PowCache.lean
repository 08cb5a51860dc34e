import ChirpGateway.Datum.PowMessage
import ChirpGateway.Lib.Transition
import ChirpGateway.Template.Block
import Mathlib.Data.Fintype.Pi

/-!
# The jobs the server remembers

The client keeps which of its jobs the server has under each of the eight job
numbers, and sends a share with what is missing (`datum_protocol.c:129-153` and
`1290-1531`). Job records are reused in a ring of 256, job numbers in a ring of
eight. A message is processed by the server in the step that builds it: the
client learns nothing from that, and the messages of a session keep their order.
-/

namespace ChirpGateway

open Bytes Transition Wire

/-- The fields of `T_DATUM_STRATUM_JOB` that shares are reported with, together with
    those of its template. The arrays bound the lengths. -/
structure PowJob where
  headerVersion : UInt32
  headerFlags : UInt8
  totals : TxnTotals
  prevhashBin : Hash32
  nbitsBin : UInt32
  datumCoinbaserId : UInt8
  height : UInt64
  coinbaseValue : UInt64
  merklebranchesBin : List Hash32
  coinbase : Fin 6 → StratumCoinbase
  subsidyOnlyCoinbase : StratumCoinbase
  targetPotIndex : UInt16
  versionUint : UInt32
  blake2bTimeOnWire : UInt32
  merklebranches_le : merklebranchesBin.length ≤ 24
  coinbase_le : ∀ i, (coinbase i).coinb1Bin.length ≤ 512 ∧
    (coinbase i).coinb2Bin.length ≤ 16384
  subsidyOnly_le : subsidyOnlyCoinbase.coinb1Bin.length ≤ 512 ∧
    subsidyOnlyCoinbase.coinb2Bin.length ≤ 16384
  deriving DecidableEq

/-- What the server is to know about the job. -/
def PowJob.context (job : PowJob) (targetByteIndex : UInt16) : JobContext where
  prevhash := job.prevhashBin
  targetByteIndex
  nbits := job.nbitsBin
  coinbaserId := job.datumCoinbaserId
  height := job.height.toUInt32
  coinbaseValue := job.coinbaseValue
  totals := job.totals
  merklebranches := job.merklebranchesBin

/-- The coinbase under an ID; the one without outputs is `0xff`, and no share has any
    other ID. -/
def PowJob.coinbaseAt (job : PowJob) (id : UInt8) : StratumCoinbase :=
  if h : id.toNat < 6 then job.coinbase ⟨id.toNat, h⟩ else job.subsidyOnlyCoinbase

/-- A used entry of `stratum_job_list`. -/
structure JobRecord where
  sjob : PowJob
  datumJobIdx : Fin 8
  deriving DecidableEq

/-! ## Queueing a share -/

/-- What `client_mining_submit` knows about an accepted share. -/
structure PowSubmission where
  username : List UInt8
  wasBlock : Bool
  subsidyOnly : Bool
  quickdiff : Bool
  blockHeader : List UInt8
  fullCbTx : List UInt8
  extranonce : List UInt8
  coinbaseIndex : UInt8
  extranonce_length : extranonce.length = 12
  coinbaseIndex_eq : coinbaseIndex < 6 ∨ subsidyOnly = true ∧ coinbaseIndex = 0xff
  deriving DecidableEq

/-- `T_DATUM_PROTOCOL_POW`. `sjob` is an entry of `stratum_job_list`. -/
structure DatumProtocolPow where
  datumJobId : Fin 8
  extranonce : List UInt8
  username : List UInt8
  sjob : Option (Fin 256)
  coinbaseId : UInt8
  subsidyOnly : Bool
  isBlock : Bool
  quickdiff : Bool
  blake2bUseTimeOffset : Bool
  targetByte : UInt8
  targetByteIndex : UInt16
  ntime : UInt64
  nonce : UInt64
  timeOnWire : UInt32
  version : UInt32
  deriving DecidableEq

/-- A number at a place of a header. -/
def numberAt (header : List UInt8) (offset size : Nat) : Nat :=
  leValue ((header.drop offset).take size)

/-- `datum_protocol_pow_submit`, for the job in an entry of the list. -/
def powSubmit (entry : Fin 256) (record : JobRecord) (share : PowSubmission) : DatumProtocolPow :=
  let job := record.sjob
  let header := share.blockHeader
  let blake2b := job.headerVersion ≥ 2
  { datumJobId := record.datumJobIdx
    extranonce := share.extranonce
    username := (Buffer.cString share.username).take 383
    sjob := if blake2b then some entry else none
    coinbaseId := share.coinbaseIndex
    subsidyOnly := share.subsidyOnly
    isBlock := share.wasBlock
    quickdiff := share.quickdiff
    blake2bUseTimeOffset := blake2b && job.headerFlags &&& blake2bUseTimeOffset ≠ 0
    targetByte := share.fullCbTx.getD job.targetPotIndex.toNat 0
    targetByteIndex := job.targetPotIndex
    ntime := UInt64.ofNat (if blake2b then numberAt header 40 8 else numberAt header 68 4)
    nonce := UInt64.ofNat (if blake2b then numberAt header 32 8 else numberAt header 76 4)
    timeOnWire := if blake2b then job.blake2bTimeOnWire else 0
    version := if blake2b then job.versionUint else UInt32.ofNat (numberAt header 0 4) }

/-! ## Building a message -/

/-- The settings that decide under which name a share is sent. -/
structure PowConfig where
  datumPoolPassFullUsers : Bool
  datumPoolPassWorkers : Bool
  miningPoolAddress : List UInt8

/-- An entry of `datum_jobs`. Only the first eight coinbase flags are there. -/
structure DatumProtocolJob where
  sjob : Option (Fin 256)
  serverSjob : Option (Fin 256)
  serverHasMerkleBranches : Bool
  serverHasCoinbase : UInt8 → Bool
  serverHasCoinbaseEmpty : Bool

/-- Whether the server has the coinbase under an ID. -/
def DatumProtocolJob.hasCoinbase (pj : DatumProtocolJob) (id : UInt8) : Bool :=
  if id = 0xff then pj.serverHasCoinbaseEmpty else pj.serverHasCoinbase id

def DatumProtocolJob.setHasCoinbase (pj : DatumProtocolJob) (id : UInt8) : DatumProtocolJob :=
  if id = 0xff then
    { pj with serverHasCoinbaseEmpty := true }
  else
    { pj with serverHasCoinbase := fun i => i = id || pj.serverHasCoinbase i }

/-- `DATUM_PROTOCOL_MAX_USERNAME_LEN`. -/
def datumProtocolMaxUsernameLen : Nat := 384

section Build

variable (config : PowConfig) (records : Fin 256 → Option JobRecord) (pow : DatumProtocolPow)

/-- The name the share is sent under. -/
def powUsername : List UInt8 :=
  let address := Buffer.cString config.miningPoolAddress
  let username := Buffer.cString pow.username
  let name :=
    if !config.datumPoolPassFullUsers && !config.datumPoolPassWorkers || username.isEmpty then
      address
    else if config.datumPoolPassFullUsers && username.getD 0 0 ≠ 46 then
      username
    else
      address ++ (if username.getD 0 0 = 46 then [] else [46]) ++ username
  name.take datumProtocolMaxUsernameLen

/-- The coinbase the share is mined on. -/
def DatumProtocolPow.coinbaseKey : UInt8 :=
  if pow.subsidyOnly then 0xff else pow.coinbaseId

def powHead : PowHead where
  datumJobId := UInt8.ofNat pow.datumJobId
  coinbaseId := pow.coinbaseId
  flags := (if pow.isBlock then 1 else 0) ||| (if pow.subsidyOnly then 2 else 0) |||
    (if pow.quickdiff then 4 else 0) ||| (if pow.sjob.isSome then 8 else 0)
  targetByte := pow.targetByte
  ntime := pow.ntime.toUInt32
  nonce := pow.nonce.toUInt32
  version := pow.version
  extranonce := pow.extranonce
  username := powUsername config pow
  reserved := if pow.sjob.isSome && pow.blake2bUseTimeOffset then 1 else 0

/-- The sections a BLAKE2b share starts with. -/
def blake2bSections : List PowSection :=
  if pow.sjob.isSome then [.blake2b pow.ntime pow.nonce, .timeOnWire pow.timeOnWire] else []

/-- The IDs that are not sent. -/
def badCoinbaseId : Bool :=
  if pow.sjob.isSome then
    pow.subsidyOnly || 6 ≤ pow.coinbaseId
  else
    7 < pow.coinbaseId && !(pow.coinbaseId = 0xff && pow.subsidyOnly)

/-- The entry a share is about: its own, or the one that has the number now. -/
def powEntry (pj : DatumProtocolJob) : Option (Fin 256) := pow.sjob <|> pj.sjob

/-- Behind the last section, for a message of so many bytes before it: the end mark,
    and what the server is known to have once it gets the message. -/
def capMessage (entry : Fin 256) (msgSize i : Nat) (w : Bool) (pj : DatumProtocolJob) :
    Bool × DatumProtocolJob :=
  if msgSize < i + 1 then
    (false, pj)
  else if w || pj.serverSjob ≠ some entry then
    if pj.serverSjob ≠ some entry then
      (true,
        { pj with
          serverHasMerkleBranches := true
          serverHasCoinbase := fun id =>
            !pow.subsidyOnly && pow.coinbaseId < 8 && id = pow.coinbaseId
          serverHasCoinbaseEmpty := pow.subsidyOnly
          serverSjob := some entry })
    else
      (true, pj)
  else
    (true, pj)

/-- The coinbase, if the server does not have it, behind `sections`. -/
def addCoinbase (entry : Fin 256) (job : PowJob) (msgSize i : Nat) (newToServer w : Bool)
    (sections : List PowSection) (pj : DatumProtocolJob) :
    Option (List PowSection) × DatumProtocolJob :=
  let id := pow.coinbaseKey
  let txn := job.coinbaseAt id
  if newToServer || !pj.hasCoinbase id then
    if i + 6 + txn.coinb1Bin.length + txn.coinb2Bin.length ≥ msgSize then
      (none, pj)
    else
      let capped := capMessage pow entry msgSize
        (i + (PowSection.coinbase id txn).encode.length) true (pj.setHasCoinbase id)
      (if capped.1 then some (sections ++ [.coinbase id txn]) else none, capped.2)
  else
    let capped := capMessage pow entry msgSize i w pj
    (if capped.1 then some sections else none, capped.2)

/-- The job, if the server does not have it, behind `sections`. -/
def addJob (entry : Fin 256) (job : PowJob) (msgSize i : Nat) (sections : List PowSection)
    (pj : DatumProtocolJob) : Option (List PowSection) × DatumProtocolJob :=
  let newToServer : Bool := pj.serverSjob ≠ some entry
  let context := job.context pow.targetByteIndex
  if newToServer || !pj.serverHasMerkleBranches then
    if i + 62 + 32 * job.merklebranchesBin.length ≥ msgSize then
      (none, pj)
    else
      addCoinbase pow entry job msgSize (i + (PowSection.job context).encode.length)
        newToServer true
        (sections ++ [.job context]) { pj with serverHasMerkleBranches := true }
  else
    addCoinbase pow entry job msgSize i newToServer false sections pj

/-- `datum_protocol_pow_build_message`: the message, unless the result is zero, and the
    entry of `datum_jobs` afterwards. -/
def powBuildMessage (msgSize : Nat) (pj : DatumProtocolJob) :
    Option (List UInt8) × DatumProtocolJob :=
  let head := (powHead config pow).encode
  let start := blake2bSections pow
  if msgSize < 64 then
    (none, pj)
  else if badCoinbaseId pow then
    (none, pj)
  else if head.length ≥ msgSize then
    (none, pj)
  else if pow.sjob.isSome && head.length + 23 ≥ msgSize then
    (none, pj)
  else
    match powEntry pow pj with
    | none => (none, pj)
    | some entry =>
      match records entry with
      | none => (none, pj)
      | some record =>
        let built := addJob pow entry record.sjob msgSize
          (head.length + (start.flatMap PowSection.encode).length) start pj
        (built.1.map fun sections => head ++ sections.flatMap PowSection.encode ++ [0xfe], built.2)

end Build

/-! ## Runs -/

/-- A share in the queue, with the entry of its job and what stood there when the
    share was mined. -/
structure QueuedShare where
  entry : Fin 256
  mined : JobRecord
  share : PowSubmission

/-- The item of the queue. -/
def QueuedShare.pow (queued : QueuedShare) : DatumProtocolPow :=
  powSubmit queued.entry queued.mined queued.share

/-- What the server remembers. -/
abbrev ServerCache := Fin 8 → ServerSlot

/-- The server reads a message; one it cannot read changes nothing. -/
def ServerCache.process (cache : ServerCache) (msg : List UInt8) : ServerCache :=
  match readPowHead msg with
  | none => cache
  | some (head, rest) =>
    if h : head.datumJobId.toNat < 8 then
      match serveSections rest.length (cache ⟨head.datumJobId.toNat, h⟩) rest with
      | none => cache
      | some slot => Function.update cache ⟨head.datumJobId.toNat, h⟩ slot
    else
      cache

/-- A message of a share, and what the server remembered once it had processed it. -/
structure ProcessedMessage where
  share : QueuedShare
  msg : List UInt8
  cache : ServerCache

/-- The number of a job and the coinbase that a message names. -/
def namedJob (head : PowHead) : UInt8 × UInt8 :=
  (head.datumJobId, if head.flags &&& 2 = 0 then head.coinbaseId else 0xff)

/-- Under the job number the message names stands the job the share was mined on, with
    the coinbase the message names. -/
def ProcessedMessage.Coherent (processed : ProcessedMessage) : Prop :=
  ∃ head rest, readPowHead processed.msg = some (head, rest) ∧
    ∃ h : (namedJob head).1.toNat < 8,
      let slot := processed.cache ⟨(namedJob head).1.toNat, h⟩
      let job := processed.share.mined.sjob
      slot.context = some (job.context job.targetPotIndex) ∧
        slot.coinbase (namedJob head).2 = some (job.coinbaseAt (namedJob head).2)

instance (processed : ProcessedMessage) : Decidable processed.Coherent :=
  match h : readPowHead processed.msg with
  | none => .isFalse fun ⟨_, _, hread, _⟩ => Option.some_ne_none _ (hread.symm.trans h)
  | some (head, rest) =>
    decidable_of_iff
      (∃ hlt : (namedJob head).1.toNat < 8,
        (processed.cache ⟨(namedJob head).1.toNat, hlt⟩).context =
            some (processed.share.mined.sjob.context processed.share.mined.sjob.targetPotIndex) ∧
          (processed.cache ⟨(namedJob head).1.toNat, hlt⟩).coinbase (namedJob head).2 =
            some (processed.share.mined.sjob.coinbaseAt (namedJob head).2))
      ⟨fun ⟨hlt, hslot⟩ => ⟨head, rest, h, hlt, hslot⟩,
        fun ⟨head', rest', hread, hlt, hslot⟩ => by
        cases Option.some.inj (hread.symm.trans h)
        exact ⟨hlt, hslot⟩⟩

/-- The lists and counters of the client, and the server. `sentJob` and `processed` are
    not in the source: the job of the last job section under each number, and all
    messages so far. -/
structure PowState where
  stratumJobList : Fin 256 → Option JobRecord
  stratumJobNext : Fin 256
  datumProtocolNextJobIdx : Fin 8
  datumJobs : Fin 8 → DatumProtocolJob
  powQueue : List QueuedShare
  server : ServerCache
  sentJob : Fin 8 → Option PowJob
  processed : List ProcessedMessage

/-- No job yet, and a queue that is prepared. -/
def PowState.Fresh (s : PowState) : Prop :=
  (∀ entry, s.stratumJobList entry = none) ∧
    (∀ idx, s.datumJobs idx = ⟨none, none, false, fun _ => false, false⟩) ∧
    s.powQueue = [] ∧ s.processed = []

/-- What happens to the lists. -/
inductive PowEvent where
  /-- `update_stratum_job`; only a job of the pool gets a number of its own -/
  | newJob (job : PowJob) (isDatumJob : Bool)
  /-- a share on the job in an entry is accepted -/
  | submit (entry : Fin 256) (share : PowSubmission)
  /-- `datum_protocol_pow` for the next share of the queue -/
  | build
  /-- the connection ends and another one starts, whatever its server remembers -/
  | reconnect (server : ServerCache)

/-- `sizeof(msg)` in `datum_protocol_pow`. -/
def powMsgSize : Nat := 32768 + 16

/-- `datum_protocol_setup_new_job_idx`. -/
def PowState.setupNewJobIdx (s : PowState) (entry : Fin 256) : Fin 8 × PowState :=
  (s.datumProtocolNextJobIdx,
    { s with
      datumProtocolNextJobIdx := s.datumProtocolNextJobIdx + 1
      datumJobs := Function.update s.datumJobs s.datumProtocolNextJobIdx
        { s.datumJobs s.datumProtocolNextJobIdx with sjob := some entry } })

/-- `update_stratum_job`, as far as the lists go. -/
def PowState.updateStratumJob (s : PowState) (job : PowJob) (isDatumJob : Bool) : PowState :=
  let entry := s.stratumJobNext
  let setup := if isDatumJob then s.setupNewJobIdx entry else (0, s)
  { setup.2 with
    stratumJobList := Function.update s.stratumJobList entry (some ⟨job, setup.1⟩)
    stratumJobNext := entry + 1 }

/-- The beginning of `datum_protocol_client`, after the end of the one before. -/
def PowState.restartClient (s : PowState) (server : ServerCache) : PowState :=
  { s with
    datumJobs := fun idx =>
      { s.datumJobs idx with
        serverHasMerkleBranches := false
        serverHasCoinbase := fun _ => false
        serverHasCoinbaseEmpty := false }
    powQueue := []
    server }

/-- The job a share would be sent for now. -/
def PowState.sendingJob (s : PowState) (queued : QueuedShare) : Option PowJob :=
  ((powEntry queued.pow (s.datumJobs queued.pow.datumJobId)).bind s.stratumJobList).map
    JobRecord.sjob

section System

variable (config : PowConfig)

/-- The next share of the queue is sent. -/
def PowState.buildNext (s : PowState) (queued : QueuedShare) (rest : List QueuedShare) : PowState :=
  let idx := queued.pow.datumJobId
  let pj := s.datumJobs idx
  let built := powBuildMessage config s.stratumJobList queued.pow powMsgSize pj
  let taken := { s with powQueue := rest, datumJobs := Function.update s.datumJobs idx built.2 }
  match built.1 with
  | none => taken
  | some msg =>
    let resent : Bool := pj.serverSjob ≠ powEntry queued.pow pj || !pj.serverHasMerkleBranches
    { taken with
      server := s.server.process msg
      sentJob := if resent then Function.update s.sentJob idx (s.sendingJob queued) else s.sentJob
      processed := s.processed ++ [⟨queued, msg, s.server.process msg⟩] }

def PowState.step (s : PowState) : PowEvent → Option PowState
  | .newJob job isDatumJob => some (s.updateStratumJob job isDatumJob)
  | .submit entry share =>
    (s.stratumJobList entry).map fun record =>
      { s with powQueue := s.powQueue ++ [⟨entry, record, share⟩] }
  | .build =>
    match s.powQueue with
    | [] => none
    | queued :: rest => some (s.buildNext config queued rest)
  | .reconnect server => some (s.restartClient server)

def powSystem : System PowState PowEvent where
  step := PowState.step config

end System

/-! ## What the server gets -/

theorem length_encode_context (context : JobContext) :
    context.encode.length = 68 + 32 * context.merklebranches.length := by
  have hbranches (hashes : List Hash32) :
      (hashes.flatMap Hash32.bytes).length = 32 * hashes.length := by
    induction hashes with
    | nil => rfl
    | cons hash hashes ih =>
      rw [List.flatMap_cons, List.length_append, hash.length_eq, ih, List.length_cons]
      omega
  simp only [JobContext.encode, TxnTotals.encode, List.length_append, length_leBytes,
    context.prevhash.length_eq, hbranches]

theorem length_le_length_flatMap_encode (sections : List PowSection) :
    sections.length ≤ (sections.flatMap PowSection.encode).length := by
  induction sections with
  | nil => exact Nat.le_refl _
  | cons sec sections ih =>
    have hpos : 0 < sec.encode.length := by
      cases sec <;> exact Nat.succ_pos _
    rw [List.flatMap_cons, List.length_append, List.length_cons]
    omega

/-- A message takes its sections to the slot of its number. -/
theorem process_encode {head : PowHead} (hhead : head.Fits) {idx : Fin 8}
    (hidx : head.datumJobId.toNat = idx.val) {sections : List PowSection}
    (hsections : ∀ sec ∈ sections, sec.Fits) (cache : ServerCache) :
    cache.process (head.encode ++ sections.flatMap PowSection.encode ++ [0xfe]) =
      Function.update cache idx (sections.foldl ServerSlot.apply (cache idx)) := by
  have hfuel : sections.length < (sections.flatMap PowSection.encode ++ [0xfe]).length := by
    have hle := length_le_length_flatMap_encode sections
    rw [List.length_append, List.length_singleton]
    omega
  have hlt : head.datumJobId.toNat < 8 := hidx ▸ idx.isLt
  have hslot : (⟨head.datumJobId.toNat, hlt⟩ : Fin 8) = idx := Fin.ext hidx
  simp only [ServerCache.process, List.append_assoc, readPowHead_encode hhead, dif_pos hlt, hslot,
    serveSections_encode hsections _ hfuel]

theorem powUsername_noNul (config : PowConfig) (pow : DatumProtocolPow) :
    0 ∉ powUsername config pow := by
  intro hmem
  have hname := List.mem_of_mem_take hmem
  have haddress := Buffer.zero_notMem_cString config.miningPoolAddress
  have husername := Buffer.zero_notMem_cString pow.username
  split at hname
  · exact haddress hname
  · split at hname
    · exact husername hname
    · rcases List.mem_append.mp hname with hname | hname
      · rcases List.mem_append.mp hname with hname | hname
        · exact haddress hname
        · split at hname
          · cases hname
          · cases List.mem_singleton.mp hname
      · exact husername hname

theorem powHead_fits (config : PowConfig) {pow : DatumProtocolPow}
    (h : pow.extranonce.length = 12) : (powHead config pow).Fits :=
  ⟨h, powUsername_noNul config pow⟩

theorem length_encode_powHead_le (config : PowConfig) {pow : DatumProtocolPow}
    (h : pow.extranonce.length = 12) : (powHead config pow).encode.length ≤ 419 := by
  have hname : (powUsername config pow).length ≤ 384 := List.length_take_le _ _
  simp only [PowHead.encode, powHead, List.length_append, length_leBytes, List.length_cons,
    List.length_nil, h]
  omega

theorem length_encode_blake2bSections_le (pow : DatumProtocolPow) :
    ((blake2bSections pow).flatMap PowSection.encode).length ≤ 23 := by
  rw [blake2bSections]
  split
  · simp [PowSection.encode]
  · exact Nat.zero_le _

/-! ## What the client keeps about it -/

theorem hasCoinbase_setHasCoinbase (pj : DatumProtocolJob) (id i : UInt8) :
    (pj.setHasCoinbase id).hasCoinbase i = (decide (i = id) || pj.hasCoinbase i) := by
  unfold DatumProtocolJob.setHasCoinbase DatumProtocolJob.hasCoinbase
  by_cases hid : id = 0xff
  · subst hid
    by_cases hi : i = 0xff
    · simp [hi]
    · simp [hi]
  · by_cases hi : i = 0xff
    · subst hi
      simp [hid, Ne.symm hid]
    · simp [hid, hi]

@[simp] theorem setHasCoinbase_serverSjob (pj : DatumProtocolJob) (id : UInt8) :
    (pj.setHasCoinbase id).serverSjob = pj.serverSjob := by
  unfold DatumProtocolJob.setHasCoinbase
  split <;> rfl

@[simp] theorem setHasCoinbase_serverHasMerkleBranches (pj : DatumProtocolJob) (id : UInt8) :
    (pj.setHasCoinbase id).serverHasMerkleBranches = pj.serverHasMerkleBranches := by
  unfold DatumProtocolJob.setHasCoinbase
  split <;> rfl

/-- The slot holds a job, with the coinbases the client takes to be there. -/
structure ServerSlot.Holds (slot : ServerSlot) (pj : DatumProtocolJob) (job : PowJob) : Prop where
  context : slot.context = some (job.context job.targetPotIndex)
  coinbase : ∀ id, pj.hasCoinbase id = true → slot.coinbase id = some (job.coinbaseAt id)

/-- What the client keeps about a slot is right. -/
structure ServerSlot.Known (slot : ServerSlot) (pj : DatumProtocolJob) (sent : Option PowJob) :
    Prop where
  nothing : pj.serverHasMerkleBranches = false → ∀ id, pj.hasCoinbase id = false
  job : pj.serverHasMerkleBranches = true → ∃ job, sent = some job ∧ slot.Holds pj job

/-- A share of a job, and the job it is sent for. -/
structure SharesJob (pow : DatumProtocolPow) (job : PowJob) : Prop where
  extranonce_length : pow.extranonce.length = 12
  targetByteIndex : pow.targetByteIndex = job.targetPotIndex
  coinbaseId : pow.coinbaseId < 6 ∨ pow.subsidyOnly = true ∧ pow.coinbaseId = 0xff

section Build

variable {pow : DatumProtocolPow} {entry : Fin 256} {job : PowJob} {msgSize : Nat}
  {slot : ServerSlot}

theorem length_coinbaseAt_le (job : PowJob) (id : UInt8) :
    (job.coinbaseAt id).coinb1Bin.length ≤ 512 ∧
    (job.coinbaseAt id).coinb2Bin.length ≤ 16384 := by
  rw [PowJob.coinbaseAt]
  split
  · exact job.coinbase_le _
  · exact job.subsidyOnly_le

/-- The entry behind the end mark: a slot that is new to the server starts over with
    this coinbase. -/
theorem capMessage_of_room {i : Nat} (hroom : i < msgSize) (w : Bool) (pj : DatumProtocolJob) :
    capMessage pow entry msgSize i w pj =
      (true, if pj.serverSjob ≠ some entry then
        { pj with
          serverHasMerkleBranches := true
          serverHasCoinbase := fun id =>
            !pow.subsidyOnly && pow.coinbaseId < 8 && id = pow.coinbaseId
          serverHasCoinbaseEmpty := pow.subsidyOnly
          serverSjob := some entry }
      else pj) := by
  rw [capMessage, if_neg (by omega)]
  by_cases hnew : pj.serverSjob ≠ some entry
  · rw [if_pos hnew, if_pos hnew, if_pos (by simp [hnew])]
  · rw [if_neg hnew, if_neg hnew, ite_self]

/-- What the entry says about a slot that has just got the job and the coinbase. -/
theorem holds_capMessage {i : Nat} (hroom : i < msgSize) (w : Bool) (pj : DatumProtocolJob)
    (hcontext : slot.context = some (job.context job.targetPotIndex))
    (hcoinbase : slot.coinbase pow.coinbaseKey = some (job.coinbaseAt pow.coinbaseKey))
    (hmerkle : pj.serverHasMerkleBranches = true)
    (hold : pj.serverSjob = some entry →
      ∀ id, pj.hasCoinbase id = true → slot.coinbase id = some (job.coinbaseAt id)) :
    (capMessage pow entry msgSize i w pj).1 = true ∧
      (capMessage pow entry msgSize i w pj).2.serverHasMerkleBranches = true ∧
      slot.Holds (capMessage pow entry msgSize i w pj).2 job := by
  rw [capMessage_of_room hroom]
  refine ⟨rfl, ?_, hcontext, ?_⟩
  · by_cases hnew : pj.serverSjob ≠ some entry
    · rw [if_pos hnew]
    · rw [if_neg hnew]
      exact hmerkle
  · intro id hid
    by_cases hnew : pj.serverSjob ≠ some entry
    · rw [if_pos hnew] at hid
      have hkey : id = pow.coinbaseKey := by
        unfold DatumProtocolJob.hasCoinbase at hid
        unfold DatumProtocolPow.coinbaseKey
        cases hsubsidy : pow.subsidyOnly
        · simp only [hsubsidy] at hid
          split at hid
          · cases hid
          · simp only [Bool.not_false, Bool.true_and, Bool.and_eq_true, decide_eq_true_eq] at hid
            simpa using hid.2
        · simp only [hsubsidy] at hid
          split at hid
          · next hff => simpa using hff
          · simp at hid
      rw [hkey]
      exact hcoinbase
    · rw [if_neg hnew] at hid
      exact hold (not_not.mp hnew) id hid

/-- Behind a job section or in its stead, the coinbase section leaves the slot with the
    coinbase of the share. -/
theorem holds_addCoinbase {i : Nat} (hroom : i + 16910 < msgSize) (w : Bool)
    (sections : List PowSection) {pj : DatumProtocolJob}
    (hcontext : slot.context = some (job.context job.targetPotIndex))
    (hmerkle : pj.serverHasMerkleBranches = true)
    (hold : pj.serverSjob = some entry →
      ∀ id, pj.hasCoinbase id = true → slot.coinbase id = some (job.coinbaseAt id)) :
    ∃ added pj', addCoinbase pow entry job msgSize i (decide (pj.serverSjob ≠ some entry)) w
        sections pj = (some (sections ++ added), pj') ∧
      (∀ sec ∈ added, sec.Fits) ∧ pj'.serverHasMerkleBranches = true ∧
      (added.foldl ServerSlot.apply slot).Holds pj' job ∧
      (added.foldl ServerSlot.apply slot).coinbase pow.coinbaseKey =
        some (job.coinbaseAt pow.coinbaseKey) := by
  have hsizes := length_coinbaseAt_le job pow.coinbaseKey
  rw [addCoinbase]
  by_cases hsend : (decide (pj.serverSjob ≠ some entry) || !pj.hasCoinbase pow.coinbaseKey) = true
  · simp only [if_pos hsend]
    rw [if_neg (by omega)]
    have hlength : i + (PowSection.coinbase pow.coinbaseKey
        (job.coinbaseAt pow.coinbaseKey)).encode.length < msgSize := by
      simp only [PowSection.encode, List.length_cons, List.length_append, length_leBytes]
      omega
    have hadded : (slot.apply (.coinbase pow.coinbaseKey (job.coinbaseAt pow.coinbaseKey))).coinbase
        pow.coinbaseKey = some (job.coinbaseAt pow.coinbaseKey) := if_pos rfl
    have hcontext' : (slot.apply (.coinbase pow.coinbaseKey (job.coinbaseAt
        pow.coinbaseKey))).context = some (job.context job.targetPotIndex) := hcontext
    have hbranches : (pj.setHasCoinbase pow.coinbaseKey).serverHasMerkleBranches = true := by
      rwa [setHasCoinbase_serverHasMerkleBranches]
    have hkept : (pj.setHasCoinbase pow.coinbaseKey).serverSjob = some entry →
        ∀ id, (pj.setHasCoinbase pow.coinbaseKey).hasCoinbase id = true →
          (slot.apply (.coinbase pow.coinbaseKey (job.coinbaseAt pow.coinbaseKey))).coinbase id =
            some (job.coinbaseAt id) := by
      intro hsame id hid
      rw [setHasCoinbase_serverSjob] at hsame
      rw [hasCoinbase_setHasCoinbase, Bool.or_eq_true, decide_eq_true_eq] at hid
      show (if id = pow.coinbaseKey then _ else _) = _
      split
      · next hkey => rw [hkey]
      · next hother => exact hold hsame id (hid.resolve_left hother)
    obtain ⟨hdone, hmerkle', hholds⟩ := holds_capMessage hlength true
      (pj.setHasCoinbase pow.coinbaseKey) hcontext' hadded hbranches hkept
    refine ⟨[.coinbase pow.coinbaseKey (job.coinbaseAt pow.coinbaseKey)], _, ?_, ?_, hmerkle',
      hholds, hadded⟩
    · rw [hdone, if_pos rfl]
    · rw [List.forall_mem_singleton]
      exact ⟨by omega, by omega⟩
  · have hknown : pj.serverSjob = some entry ∧ pj.hasCoinbase pow.coinbaseKey = true := by
      simpa using hsend
    simp only [if_neg hsend]
    obtain ⟨hdone, hmerkle', hholds⟩ :=
      holds_capMessage (show i < msgSize by omega) w pj hcontext
      (hold hknown.1 _ hknown.2) hmerkle hold
    refine ⟨[], _, ?_, List.forall_mem_nil _, hmerkle', hholds, hold hknown.1 _ hknown.2⟩
    rw [hdone, if_pos rfl, List.append_nil]

/-- The sections of a share leave the slot with its job and its coinbase, when the
    client is right about the job it takes the slot to hold. -/
theorem holds_addJob (hpow : SharesJob pow job) {i : Nat} (hroom : i + 17800 < msgSize)
    (sections : List PowSection) {pj : DatumProtocolJob} {sent : Option PowJob}
    (hknown : slot.Known pj sent)
    (hsent : pj.serverSjob = some entry → pj.serverHasMerkleBranches = true → sent = some job) :
    ∃ added pj', addJob pow entry job msgSize i sections pj = (some (sections ++ added), pj') ∧
      (∀ sec ∈ added, sec.Fits) ∧ pj'.serverHasMerkleBranches = true ∧
      (added.foldl ServerSlot.apply slot).Holds pj' job ∧
      (added.foldl ServerSlot.apply slot).coinbase pow.coinbaseKey =
        some (job.coinbaseAt pow.coinbaseKey) := by
  have hbranches := job.merklebranches_le
  rw [addJob]
  by_cases hsend : (decide (pj.serverSjob ≠ some entry) || !pj.serverHasMerkleBranches) = true
  · simp only [if_pos hsend]
    rw [if_neg (by omega)]
    have hlength : i + (PowSection.job (job.context pow.targetByteIndex)).encode.length + 16910 <
        msgSize := by
      rw [PowSection.encode, List.length_cons, length_encode_context]
      show i + (68 + 32 * job.merklebranchesBin.length + 1) + 16910 < msgSize
      omega
    have hcontext : (slot.apply (.job (job.context pow.targetByteIndex))).context =
        some (job.context job.targetPotIndex) := by
      rw [ServerSlot.apply, hpow.targetByteIndex]
    obtain ⟨added, pj', hadd, hfits, hrest⟩ := holds_addCoinbase hlength true
      (sections ++ [.job (job.context pow.targetByteIndex)])
      (show _ = _ from hcontext)
      (show ({ pj with serverHasMerkleBranches := true } :
          DatumProtocolJob).serverHasMerkleBranches =
        true from rfl) (by
        intro hsame id hid
        have hsame' : pj.serverSjob = some entry := hsame
        have hmissing : pj.serverHasMerkleBranches = false := by
          simpa [hsame'] using hsend
        have hnone := hknown.nothing hmissing id
        exact absurd (hid.symm.trans hnone) Bool.true_eq_false.mp)
    refine ⟨.job (job.context pow.targetByteIndex) :: added, pj', ?_, ?_, hrest⟩
    · rw [hadd, List.append_assoc, List.singleton_append]
    · rw [List.forall_mem_cons]
      refine ⟨?_, hfits⟩
      show job.merklebranchesBin.length < 256
      omega
  · have hsame : pj.serverSjob = some entry ∧ pj.serverHasMerkleBranches = true := by
      simpa using hsend
    simp only [if_neg hsend]
    obtain ⟨known, hsentKnown, hholds⟩ := hknown.job hsame.2
    have hjob : known = job := by
      rw [hsent hsame.1 hsame.2] at hsentKnown
      exact (Option.some.inj hsentKnown).symm
    rw [hjob] at hholds
    exact holds_addCoinbase (show i + 16910 < msgSize by omega) false sections hholds.context
      hsame.2 fun _ => hholds.coinbase

end Build

theorem QueuedShare.sharesJob (queued : QueuedShare) :
    SharesJob queued.pow queued.mined.sjob :=
  ⟨queued.share.extranonce_length, rfl, queued.share.coinbaseIndex_eq⟩

theorem namedJob_powHead (config : PowConfig) (pow : DatumProtocolPow) :
    (namedJob (powHead config pow)).1.toNat = pow.datumJobId.val ∧
      (namedJob (powHead config pow)).2 = pow.coinbaseKey := by
  have hid : (UInt8.ofNat pow.datumJobId).toNat = pow.datumJobId.val :=
    UInt8.toNat_ofNat_of_lt' (Nat.lt_trans pow.datumJobId.isLt (by decide))
  have hflag : ∀ isBlock subsidyOnly quickdiff blake2b : Bool,
      ((if isBlock then 1 else 0) ||| (if subsidyOnly then 2 else 0) |||
        (if quickdiff then 4 else 0) ||| (if blake2b then 8 else 0) : UInt8) &&& 2 = 0 ↔
        subsidyOnly = false := by decide
  refine ⟨hid, ?_⟩
  simp only [namedJob, powHead, hflag, DatumProtocolPow.coinbaseKey]
  cases pow.subsidyOnly <;> rfl

/-- Before the sections either nothing has happened, or the share is about a job that
    is there. -/
theorem powBuildMessage_cases (config : PowConfig) (records : Fin 256 → Option JobRecord)
    {pow : DatumProtocolPow} (hpow : pow.extranonce.length = 12) (pj : DatumProtocolJob) :
    powBuildMessage config records pow powMsgSize pj = (none, pj) ∨
      ∃ entry record i, powEntry pow pj = some entry ∧ records entry = some record ∧
        badCoinbaseId pow = false ∧ i + 17800 < powMsgSize ∧
        powBuildMessage config records pow powMsgSize pj =
          ((addJob pow entry record.sjob powMsgSize i (blake2bSections pow) pj).1.map
            fun sections =>
              (powHead config pow).encode ++ sections.flatMap PowSection.encode ++ [0xfe],
            (addJob pow entry record.sjob powMsgSize i (blake2bSections pow) pj).2) := by
  have hhead := length_encode_powHead_le config hpow
  have hstart := length_encode_blake2bSections_le pow
  rw [powBuildMessage, powMsgSize, if_neg (by omega)]
  cases hbad : badCoinbaseId pow
  · rw [if_neg Bool.false_ne_true, if_neg (by omega), if_neg (by
      rw [Bool.and_eq_true, decide_eq_true_eq]
      omega)]
    cases hentry : powEntry pow pj with
    | none => exact Or.inl rfl
    | some entry =>
      cases hrecord : records entry with
      | none => exact Or.inl (by simp only [hrecord])
      | some record =>
        refine Or.inr ⟨entry, record, _, rfl, hrecord, rfl, ?_, by simp only [hrecord]; rfl⟩
        omega
  · exact Or.inl (if_pos rfl)

/-! ## Runs that stay coherent -/

/-- A share would be sent for the job it was mined on, and if the server is taken to
    have that job under the number, it was told about this one. -/
def PowState.SendsFor (s : PowState) (queued : QueuedShare) : Prop :=
  badCoinbaseId queued.pow = false → ∀ job ∈ s.sendingJob queued, job = queued.mined.sjob ∧
    ((s.datumJobs queued.pow.datumJobId).serverSjob =
        powEntry queued.pow (s.datumJobs queued.pow.datumJobId) →
      (s.datumJobs queued.pow.datumJobId).serverHasMerkleBranches = true →
      s.sentJob queued.pow.datumJobId = some queued.mined.sjob)

instance (s : PowState) (queued : QueuedShare) : Decidable (s.SendsFor queued) :=
  inferInstanceAs (Decidable (_ → _))

/-- The next share of the queue is sent for the job it was mined on. -/
def PowState.SendsMinedJob (s : PowState) : PowEvent → Prop
  | .build => ∀ queued ∈ s.powQueue.head?, s.SendsFor queued
  | _ => True

instance (s : PowState) (event : PowEvent) : Decidable (s.SendsMinedJob event) :=
  match event with
  | .newJob _ _ => inferInstanceAs (Decidable True)
  | .submit _ _ => inferInstanceAs (Decidable True)
  | .build => inferInstanceAs (Decidable (∀ queued ∈ s.powQueue.head?, s.SendsFor queued))
  | .reconnect _ => inferInstanceAs (Decidable True)

/-- The client is right about every slot, and every message found its job. -/
structure PowState.InStep (s : PowState) : Prop where
  known : ∀ idx, (s.server idx).Known (s.datumJobs idx) (s.sentJob idx)
  coherent : ∀ processed ∈ s.processed, processed.Coherent

theorem PowState.Fresh.inStep {s : PowState} (h : s.Fresh) : s.InStep := by
  obtain ⟨-, hjobs, -, hprocessed⟩ := h
  refine ⟨fun idx => ?_, ?_⟩
  · rw [hjobs]
    exact ⟨fun _ id => ite_self _, nofun⟩
  · rw [hprocessed]
    exact nofun

/-- Only `sjob` of one entry changes. -/
theorem PowState.InStep.updateStratumJob {s : PowState} (h : s.InStep) (job : PowJob)
    (isDatumJob : Bool) : (s.updateStratumJob job isDatumJob).InStep := by
  refine ⟨fun idx => ?_, ?_⟩
  · cases isDatumJob
    · exact h.known idx
    · show (s.server idx).Known (Function.update s.datumJobs s.datumProtocolNextJobIdx _ idx)
        (s.sentJob idx)
      by_cases hidx : idx = s.datumProtocolNextJobIdx
      · subst hidx
        rw [Function.update_self]
        obtain ⟨hnothing, hjob⟩ := h.known s.datumProtocolNextJobIdx
        refine ⟨hnothing, fun hmerkle => ?_⟩
        obtain ⟨known, hsent, hcontext, hcoinbase⟩ := hjob hmerkle
        exact ⟨known, hsent, hcontext, hcoinbase⟩
      · rw [Function.update_of_ne hidx]
        exact h.known idx
  · cases isDatumJob
    · exact h.coherent
    · exact h.coherent

/-- What a message does to the slot of its number, with the entry of the client. -/
structure DeliversJob (config : PowConfig) (pow : DatumProtocolPow) (job : PowJob)
    (cache : ServerCache) (msg : List UInt8) (pj' : DatumProtocolJob) (slot : ServerSlot) :
    Prop where
  head : ∃ rest, readPowHead msg = some (powHead config pow, rest)
  process : cache.process msg = Function.update cache pow.datumJobId slot
  merkle : pj'.serverHasMerkleBranches = true
  holds : slot.Holds pj' job
  coinbase : slot.coinbase pow.coinbaseKey = some (job.coinbaseAt pow.coinbaseKey)

/-- A share that is sent for its job takes the job to the server. -/
theorem exists_deliversJob (config : PowConfig) {records : Fin 256 → Option JobRecord}
    {pow : DatumProtocolPow} {job : PowJob} (hpow : SharesJob pow job) {cache : ServerCache}
    {pj : DatumProtocolJob} {sent : Option PowJob} (hknown : (cache pow.datumJobId).Known pj sent)
    {entry : Fin 256} {i : Nat} (hroom : i + 17800 < powMsgSize)
    (hsent : pj.serverSjob = some entry → pj.serverHasMerkleBranches = true → sent = some job)
    (hbuilt : powBuildMessage config records pow powMsgSize pj =
      ((addJob pow entry job powMsgSize i (blake2bSections pow) pj).1.map fun sections =>
          (powHead config pow).encode ++ sections.flatMap PowSection.encode ++ [0xfe],
        (addJob pow entry job powMsgSize i (blake2bSections pow) pj).2)) :
    ∃ msg pj' slot, powBuildMessage config records pow powMsgSize pj = (some msg, pj') ∧
      DeliversJob config pow job cache msg pj' slot := by
  obtain ⟨added, pj', hadd, hfits, hmerkle, hholds, hcoinbase⟩ :=
    holds_addJob hpow hroom (blake2bSections pow) hknown hsent
  have hkept : (blake2bSections pow).foldl ServerSlot.apply (cache pow.datumJobId) =
      cache pow.datumJobId := by
    rw [blake2bSections]
    split <;> rfl
  have hsections : ∀ sec ∈ blake2bSections pow ++ added, sec.Fits := by
    intro sec hsec
    rcases List.mem_append.mp hsec with hstart | hadded
    · rw [blake2bSections] at hstart
      split at hstart
      · rcases List.mem_cons.mp hstart with rfl | hstart
        · trivial
        · cases List.mem_singleton.mp hstart
          trivial
      · cases hstart
    · exact hfits sec hadded
  have hhead := powHead_fits config hpow.extranonce_length
  have hprocess := process_encode hhead (namedJob_powHead config pow).1 hsections cache
  rw [List.foldl_append, hkept] at hprocess
  have hread : ∃ rest, readPowHead ((powHead config pow).encode ++
      (blake2bSections pow ++ added).flatMap PowSection.encode ++ [0xfe]) =
        some (powHead config pow, rest) := by
    rw [List.append_assoc]
    exact ⟨_, readPowHead_encode hhead _⟩
  rw [hadd] at hbuilt
  exact ⟨_, pj', _, hbuilt, hread, hprocess, hmerkle, hholds, hcoinbase⟩

theorem DeliversJob.coherent {config : PowConfig} {queued : QueuedShare} {cache : ServerCache}
    {msg : List UInt8} {pj' : DatumProtocolJob} {slot : ServerSlot}
    (h : DeliversJob config queued.pow queued.mined.sjob cache msg pj' slot) :
    ProcessedMessage.Coherent ⟨queued, msg, cache.process msg⟩ := by
  obtain ⟨rest, hhead⟩ := h.head
  obtain ⟨hid, hkey⟩ := namedJob_powHead config queued.pow
  have hlt : (namedJob (powHead config queued.pow)).1.toNat < 8 :=
    hid ▸ queued.pow.datumJobId.isLt
  have hslot :
      cache.process msg ⟨(namedJob (powHead config queued.pow)).1.toNat, hlt⟩ = slot := by
    have hidx : (⟨(namedJob (powHead config queued.pow)).1.toNat, hlt⟩ : Fin 8) =
        queued.pow.datumJobId := Fin.ext hid
    rw [hidx, h.process, Function.update_self]
  refine ⟨_, rest, hhead, hlt, ?_⟩
  simp only [hslot, hkey]
  exact ⟨h.holds.context, h.coinbase⟩

theorem PowState.InStep.buildNext {config : PowConfig} {s : PowState} (h : s.InStep)
    {queued : QueuedShare} (hsends : s.SendsFor queued) (rest : List QueuedShare) :
    (s.buildNext config queued rest).InStep := by
  have hshares := queued.sharesJob
  rcases powBuildMessage_cases config s.stratumJobList hshares.extranonce_length
    (s.datumJobs queued.pow.datumJobId) with hnone | ⟨entry, record, i, hentry, hrecord, hgood,
      hroom, hbuilt⟩
  · -- nothing is sent
    simp only [PowState.buildNext, hnone, Function.update_eq_self]
    exact ⟨h.known, h.coherent⟩
  · have hsending : s.sendingJob queued = some record.sjob := by
      rw [PowState.sendingJob, hentry, Option.bind_some, hrecord, Option.map_some]
    obtain ⟨hmined, hsent⟩ := hsends hgood _ hsending
    rw [hentry] at hsent
    rw [hmined] at hbuilt hsending
    obtain ⟨msg, pj', slot, hmsg, hdelivers⟩ :=
      exists_deliversJob config hshares (h.known queued.pow.datumJobId) hroom hsent hbuilt
    simp only [PowState.buildNext, hmsg, hentry]
    refine ⟨fun idx => ?_, ?_⟩
    · simp only [hdelivers.process]
      by_cases hidx : idx = queued.pow.datumJobId
      · subst hidx
        rw [Function.update_self, Function.update_self]
        refine ⟨fun hmissing => absurd (hmissing.symm.trans hdelivers.merkle) Bool.false_ne_true,
          fun _ => ⟨queued.mined.sjob, ?_, hdelivers.holds⟩⟩
        split
        · rw [Function.update_self, hsending]
        · next hresent =>
          have hsame : (s.datumJobs queued.pow.datumJobId).serverSjob = some entry ∧
              (s.datumJobs queued.pow.datumJobId).serverHasMerkleBranches = true := by
            simpa using hresent
          exact hsent hsame.1 hsame.2
      · rw [Function.update_of_ne hidx, Function.update_of_ne hidx]
        split
        · rw [Function.update_of_ne hidx]
          exact h.known idx
        · exact h.known idx
    · intro processed hmem
      rcases List.mem_append.mp hmem with hold | hnew
      · exact h.coherent processed hold
      · rw [List.mem_singleton.mp hnew]
        exact hdelivers.coherent

def blankHash : Hash32 := ⟨List.replicate 32 0, length_blank⟩

/-- A job of a header version and a height. -/
def heightJob (headerVersion : UInt32) (height : UInt64) : PowJob where
  headerVersion
  headerFlags := 0
  totals := ⟨0, 0, 0, 0⟩
  prevhashBin := blankHash
  nbitsBin := 0
  datumCoinbaserId := 0
  height
  coinbaseValue := 5000000000
  merklebranchesBin := []
  coinbase _ := ⟨[1], [2]⟩
  subsidyOnlyCoinbase := ⟨[], []⟩
  targetPotIndex := 0
  versionUint := 0
  blake2bTimeOnWire := 0
  merklebranches_le := Nat.zero_le _
  coinbase_le _ := by decide
  subsidyOnly_le := by decide

def plainShare : PowSubmission where
  username := []
  wasBlock := false
  subsidyOnly := false
  quickdiff := false
  blockHeader := []
  fullCbTx := []
  extranonce := List.replicate 12 0
  coinbaseIndex := 2
  extranonce_length := rfl
  coinbaseIndex_eq := by decide

def poolNames : PowConfig where
  datumPoolPassFullUsers := false
  datumPoolPassWorkers := false
  miningPoolAddress := ascii "pool"

def noJobs : PowState where
  stratumJobList _ := none
  stratumJobNext := 0
  datumProtocolNextJobIdx := 0
  datumJobs _ := ⟨none, none, false, fun _ => false, false⟩
  powQueue := []
  server _ := ⟨none, fun _ => none⟩
  sentJob _ := none
  processed := []

theorem noJobs_fresh : noJobs.Fresh := ⟨fun _ => rfl, fun _ => rfl, rfl, rfl⟩

/-- A run whose events can happen and that ends with an incoherent message. -/
theorem exists_incoherent_of_replay (version : UInt32) (events : List PowEvent)
    (h : (((powSystem poolNames).replay (fun _ _ => true) noJobs events).any fun s =>
      s.processed.any fun processed => ¬ processed.Coherent ∧
        processed.share.mined.sjob.headerVersion = version) = true) :
    ∃ s, (powSystem poolNames).Reachable PowState.Fresh s ∧
      ∃ processed ∈ s.processed, ¬ processed.Coherent ∧
        processed.share.mined.sjob.headerVersion = version := by
  obtain ⟨s, hrun, hincoherent⟩ := System.exists_reachedBy_of_replay (powSystem poolNames)
    noJobs_fresh (fun _ _ => true) events _ (fun _ _ _ => trivial) h
  obtain ⟨processed, hmem, hnot⟩ := List.any_eq_true.mp hincoherent
  exact ⟨s, hrun, processed, hmem, of_decide_eq_true hnot⟩

end ChirpGateway
