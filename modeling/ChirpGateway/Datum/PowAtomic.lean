import ChirpGateway.Datum.PowCache

/-!
# Messages that do not fit

A share whose message does not fit is not sent. What `datum_jobs` says about the
server must then stay as it was (`datum_protocol.c:1340-1531`).
-/

namespace ChirpGateway

section Build

variable (config : PowConfig) (records : Fin 256 → Option JobRecord) (pow : DatumProtocolPow)

/-- `datum_protocol_pow_build_message`, with all of `datum_jobs`. -/
def powBuildInJobs (msgSize : Nat) (datumJobs : Fin 8 → DatumProtocolJob) :
    Option (List UInt8) × (Fin 8 → DatumProtocolJob) :=
  let built := powBuildMessage config records pow msgSize (datumJobs pow.datumJobId)
  (built.1, Function.update datumJobs pow.datumJobId built.2)

/-- The end of a message of `i` bytes behind the coinbase, which the server may have. -/
def coinbaseEnd (job : PowJob) (i : Nat) (newToServer : Bool) (pj : DatumProtocolJob) : Nat :=
  let txn := job.coinbaseAt pow.coinbaseKey
  if newToServer || !pj.hasCoinbase pow.coinbaseKey then
    i + 6 + txn.coinb1Bin.length + txn.coinb2Bin.length
  else
    i

/-- Where the sections about the job start. -/
def jobSectionStart : Nat :=
  (powHead config pow).encode.length + ((blake2bSections pow).flatMap PowSection.encode).length

/-- The checks in front of the job section pass. -/
def PassesHead (msgSize : Nat) : Prop :=
  64 ≤ msgSize ∧ badCoinbaseId pow = false ∧ (powHead config pow).encode.length < msgSize ∧
    (pow.sjob.isSome = true → (powHead config pow).encode.length + 23 < msgSize)

/-- The job section passes its check, which is for 62 of its 69 bytes without branches, is
    the first one for its entry, and leaves no room for the rest. -/
def EndsBehindJob (entry : Fin 256) (job : PowJob) (msgSize i : Nat) (pj : DatumProtocolJob) :
    Prop :=
  let branches := 32 * job.merklebranchesBin.length
  pj.serverHasMerkleBranches = false ∧ i + 62 + branches < msgSize ∧
    msgSize ≤ coinbaseEnd pow job (i + 69 + branches) (pj.serverSjob ≠ some entry) pj

/-- The message gets as far as the job section and no further. -/
def FailsBehindJob (msgSize : Nat) (pj : DatumProtocolJob) : Prop :=
  PassesHead config pow msgSize ∧ ∃ entry record, powEntry pow pj = some entry ∧
    records entry = some record ∧
    EndsBehindJob pow entry record.sjob msgSize (jobSectionStart config pow) pj

variable {pow}

theorem capMessage_of_full {entry : Fin 256} {msgSize i : Nat} (h : msgSize ≤ i) (w : Bool)
    (pj : DatumProtocolJob) : capMessage pow entry msgSize i w pj = (false, pj) :=
  if_pos (Nat.lt_succ_of_le h)

theorem length_encode_coinbase (id : UInt8) (txn : StratumCoinbase) :
    (PowSection.coinbase id txn).encode.length =
      6 + txn.coinb1Bin.length + txn.coinb2Bin.length := by
  simp [PowSection.encode]
  omega

/-- Too long a message ends there, and nothing changes. -/
theorem addCoinbase_of_full {entry : Fin 256} {job : PowJob} {msgSize i : Nat}
    {newToServer : Bool} {pj : DatumProtocolJob}
    (h : msgSize ≤ coinbaseEnd pow job i newToServer pj) (w : Bool) (sections : List PowSection) :
    addCoinbase pow entry job msgSize i newToServer w sections pj = (none, pj) := by
  by_cases hsend : (newToServer || !pj.hasCoinbase pow.coinbaseKey) = true
  · simp only [coinbaseEnd, if_pos hsend] at h
    simp only [addCoinbase, if_pos hsend]
    rw [if_pos h]
  · simp only [coinbaseEnd, if_neg hsend] at h
    simp only [addCoinbase, if_neg hsend, capMessage_of_full h]
    rfl

/-- A message that fits is built. -/
theorem addCoinbase_of_room {entry : Fin 256} {job : PowJob} {msgSize i : Nat}
    {newToServer : Bool} {pj : DatumProtocolJob}
    (h : coinbaseEnd pow job i newToServer pj < msgSize) (w : Bool) (sections : List PowSection) :
    (addCoinbase pow entry job msgSize i newToServer w sections pj).1 ≠ none := by
  by_cases hsend : (newToServer || !pj.hasCoinbase pow.coinbaseKey) = true
  · simp only [coinbaseEnd, if_pos hsend] at h
    have hroom : i + (PowSection.coinbase pow.coinbaseKey
        (job.coinbaseAt pow.coinbaseKey)).encode.length < msgSize := by
      rw [length_encode_coinbase]
      omega
    simp only [addCoinbase, if_pos hsend, capMessage_of_room hroom]
    rw [if_neg (Nat.not_le.mpr h)]
    simp
  · simp only [coinbaseEnd, if_neg hsend] at h
    simp only [addCoinbase, if_neg hsend, capMessage_of_room h]
    simp

/-- Setting the flag changes an entry without it only. -/
theorem setMerkle_eq_self_iff (pj : DatumProtocolJob) :
    { pj with serverHasMerkleBranches := true } = pj ↔ pj.serverHasMerkleBranches = true := by
  constructor
  · intro h
    rw [← h]
  · intro h
    rw [← h]

/-- The job section fails without a change, unless it is the first for its entry and
    leaves no room for the rest. -/
theorem addJob_keeps_iff (entry : Fin 256) (job : PowJob) (msgSize i : Nat)
    (sections : List PowSection) (pj : DatumProtocolJob) :
    ((addJob pow entry job msgSize i sections pj).1 = none →
        (addJob pow entry job msgSize i sections pj).2 = pj) ↔
      ¬ EndsBehindJob pow entry job msgSize i pj := by
  have hlength : (PowSection.job (job.context pow.targetByteIndex)).encode.length =
      69 + 32 * job.merklebranchesBin.length := by
    simp [PowSection.encode, length_encode_context, PowJob.context]
    omega
  have hmarked (newToServer : Bool) (i : Nat) :
      coinbaseEnd pow job i newToServer { pj with serverHasMerkleBranches := true } =
        coinbaseEnd pow job i newToServer pj := rfl
  by_cases hsend : (decide (pj.serverSjob ≠ some entry) || !pj.serverHasMerkleBranches) = true
  · simp only [addJob, if_pos hsend, hlength, EndsBehindJob, Nat.add_assoc]
    by_cases hfull : i + (62 + 32 * job.merklebranchesBin.length) ≥ msgSize
    · simp [hfull]
    · rw [if_neg hfull]
      by_cases hend : msgSize ≤ coinbaseEnd pow job (i + (69 + 32 * job.merklebranchesBin.length))
          (pj.serverSjob ≠ some entry) pj
      · rw [addCoinbase_of_full (by rwa [hmarked]), setMerkle_eq_self_iff]
        cases pj.serverHasMerkleBranches
        · refine iff_of_false (fun h => Bool.false_ne_true (h rfl)) fun h => ?_
          exact h ⟨rfl, Nat.lt_of_not_le hfull, hend⟩
        · simp
      · refine iff_of_true (fun hnone => absurd hnone (addCoinbase_of_room ?_ _ _))
          fun hends => hend hends.2.2
        rw [hmarked]
        exact Nat.lt_of_not_le hend
  · have hknown : pj.serverSjob = some entry ∧ pj.serverHasMerkleBranches = true := by
      simpa using hsend
    refine iff_of_true ?_ fun hends => Bool.false_ne_true (hends.1.symm.trans hknown.2)
    simp only [addJob, if_neg hsend]
    intro hnone
    by_cases hend : msgSize ≤ coinbaseEnd pow job i (pj.serverSjob ≠ some entry) pj
    · rw [addCoinbase_of_full hend]
    · exact absurd hnone (addCoinbase_of_room (Nat.lt_of_not_le hend) false sections)

variable (pow) {config records}

/-- The head and what a share starts with take no more room than was checked. -/
theorem powBuildMessage_of_passesHead {msgSize : Nat} {pj : DatumProtocolJob} {entry : Fin 256}
    {record : JobRecord} (hhead : PassesHead config pow msgSize)
    (hentry : powEntry pow pj = some entry) (hrecord : records entry = some record) :
    let built := addJob pow entry record.sjob msgSize (jobSectionStart config pow)
      (blake2bSections pow) pj
    powBuildMessage config records pow msgSize pj =
      (built.1.map fun sections =>
        (powHead config pow).encode ++ sections.flatMap PowSection.encode ++ [0xfe], built.2) := by
  obtain ⟨hsize, hgood, hlength, hblake2b⟩ := hhead
  have hstart :
      ¬ (pow.sjob.isSome && (powHead config pow).encode.length + 23 ≥ msgSize) = true := by
    rw [Bool.and_eq_true, decide_eq_true_eq]
    rintro ⟨hsjob, hlong⟩
    have hlt := hblake2b hsjob
    omega
  have hbad : ¬ badCoinbaseId pow = true := by
    rw [hgood]
    exact Bool.false_ne_true
  rw [powBuildMessage, if_neg (Nat.not_lt.mpr hsize), if_neg hbad, if_neg (Nat.not_le.mpr hlength),
    if_neg hstart, hentry]
  simp only [hrecord, jobSectionStart]

/-- A share that gets nowhere near a job section is not sent and changes nothing. -/
theorem powBuildMessage_of_not {msgSize : Nat} {pj : DatumProtocolJob}
    (h : ¬ (PassesHead config pow msgSize ∧ ∃ entry record, powEntry pow pj = some entry ∧
      records entry = some record)) :
    powBuildMessage config records pow msgSize pj = (none, pj) := by
  rw [powBuildMessage]
  split_ifs with hsize hbad hlength hblake2b
  · rfl
  · rfl
  · rfl
  · rfl
  · cases hentry : powEntry pow pj with
    | none => rfl
    | some entry =>
      cases hrecord : records entry with
      | none => simp only [hrecord]
      | some record =>
        refine absurd ⟨⟨?_, ?_, ?_, ?_⟩, entry, record, hentry, hrecord⟩ h
        · omega
        · exact (Bool.not_eq_true _).mp hbad
        · omega
        · intro hsjob
          simp [hsjob] at hblake2b
          exact hblake2b

/-- The entry of a share is left alone by a message that fails, except in this case. -/
theorem powBuildMessage_keeps_iff (msgSize : Nat) (pj : DatumProtocolJob) :
    ((powBuildMessage config records pow msgSize pj).1 = none →
        (powBuildMessage config records pow msgSize pj).2 = pj) ↔
      ¬ FailsBehindJob config records pow msgSize pj := by
  by_cases hreach : PassesHead config pow msgSize ∧ ∃ entry record,
      powEntry pow pj = some entry ∧ records entry = some record
  · obtain ⟨hhead, entry, record, hentry, hrecord⟩ := hreach
    have hfails : FailsBehindJob config records pow msgSize pj ↔
        EndsBehindJob pow entry record.sjob msgSize (jobSectionStart config pow) pj := by
      constructor
      · rintro ⟨-, entry', record', hentry', hrecord', hends⟩
        cases Option.some.inj (hentry.symm.trans hentry')
        cases Option.some.inj (hrecord.symm.trans hrecord')
        exact hends
      · intro hends
        exact ⟨hhead, entry, record, hentry, hrecord, hends⟩
    rw [hfails, ← addJob_keeps_iff entry record.sjob msgSize _ (blake2bSections pow) pj,
      powBuildMessage_of_passesHead pow hhead hentry hrecord]
    simp only [Option.map_eq_none_iff]
  · rw [powBuildMessage_of_not pow hreach]
    refine iff_of_true (fun _ => rfl) ?_
    rintro ⟨hhead, entry, record, hentry, hrecord, -⟩
    exact hreach ⟨hhead, entry, record, hentry, hrecord⟩

variable (config records)

/-- A share that is not sent leaves `datum_jobs` as it was, unless its message fails
    behind the job section. -/
theorem datumJobs_kept_iff (msgSize : Nat) (datumJobs : Fin 8 → DatumProtocolJob) :
    ((powBuildInJobs config records pow msgSize datumJobs).1 = none →
        (powBuildInJobs config records pow msgSize datumJobs).2 = datumJobs) ↔
      ¬ FailsBehindJob config records pow msgSize (datumJobs pow.datumJobId) := by
  rw [← powBuildMessage_keeps_iff]
  simp only [powBuildInJobs, Function.update_eq_iff, ne_eq, implies_true, and_true]

/-- The messages of `datum_protocol_pow` are long enough for everything. -/
theorem not_failsBehindJob_powMsgSize (h : pow.extranonce.length = 12) (pj : DatumProtocolJob) :
    ¬ FailsBehindJob config records pow powMsgSize pj := by
  rintro ⟨-, entry, record, -, -, -, -, hend⟩
  have hhead := length_encode_powHead_le config h
  have hstart := length_encode_blake2bSections_le pow
  have hbranches := record.sjob.merklebranches_le
  have hsizes := length_coinbaseAt_le record.sjob pow.coinbaseKey
  simp only [coinbaseEnd, jobSectionStart, powMsgSize] at hend
  split at hend <;> omega

end Build

/-- A share of the job in the first entry, on a coinbase of two bytes. -/
def twoByteShare : DatumProtocolPow :=
  powSubmit 0 ⟨heightJob 1 7, 0⟩ plainShare

/-- No job has been sent yet, and the first number is that of the first entry. -/
def unsentJobs : Fin 8 → DatumProtocolJob :=
  fun _ => ⟨some 0, none, false, fun _ => false, false⟩

/-- 110 bytes are enough for the head and the job, of 39 and 69 bytes, but not for the
    coinbase: nothing is sent, and the server is taken to have the merkle branches. -/
theorem datumJobs_changed_by_failure :
    let built := powBuildInJobs poolNames (fun _ => some ⟨heightJob 1 7, 0⟩) twoByteShare 110
      unsentJobs
    built.1 = none ∧ (unsentJobs 0).serverHasMerkleBranches = false ∧
      (built.2 0).serverHasMerkleBranches = true := by
  decide +kernel

end ChirpGateway
