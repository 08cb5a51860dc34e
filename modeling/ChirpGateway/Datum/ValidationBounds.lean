import ChirpGateway.Datum.Send
import ChirpGateway.Datum.Validation
import ChirpGateway.Template.Block

/-!
# Bounds of the replies to job validation

A request is read where it was received, and a reply is written into a buffer, from the
front, with room for what the encryption adds (`datum_protocol.c:454-888`). The handlers
do not get the length of the request.
-/

namespace ChirpGateway

open Within Wire

/-- `sizeof(msg)` in `datum_protocol_job_validation_stxlist`. -/
def stxlistMsgSize : Nat := 128 * 1024

/-- `sizeof(temp_data)`. -/
def tempDataSize : Nat := 2 ^ 22 + 16384

/-- A complete reply in a buffer, where it is encrypted. -/
def sealWithin (room : Nat) (reply : List UInt8) : Option (List UInt8) :=
  if reply.length + cryptoBoxMacbytes ≤ room then some reply else none

section Bounded

variable (jobs : Fin 8 → ValidationJob) (padding : List UInt8)

/-- The loop over the requested transactions, with the next index at `k`. Outside the
    request or the buffer it is `none`; an index that is not there is `some none`. -/
def requestedWithin (txns : List ValidationTxn) (data : List UInt8) :
    (count k : Nat) → List UInt8 → Option (Option (List UInt8))
  | 0, _, msg => some (some msg)
  | count + 1, k, msg =>
    (span data k 2).bind fun id =>
    match txns[leValue id]? with
    | none => some none
    | some txn =>
      (put tempDataSize msg (sizedTxn txn)).bind fun msg =>
        requestedWithin txns data count (k + 2) msg

/-- `datum_protocol_job_validation_stxlist_byid`, inside the request and `temp_data`. -/
def stxlistByidWithin (data : List UInt8) : Option (List UInt8) :=
  data[0]?.bind fun jobIndex =>
  (span data 1 2).bind fun count =>
  let reqCount := leValue count
  match validationJob jobs padding 0x91 jobIndex with
  | .error reply => sealWithin tempDataSize reply
  | .ok txns =>
    let unknown := validationReply 0x91 jobIndex 0xf4 ++ padding
    if reqCount = 0 ∨ reqCount > txns.length then sealWithin tempDataSize unknown
    else
      (requestedWithin txns data reqCount 3 (validationReply 0x91 jobIndex 0x01 ++ count)).bind fun
      | none => sealWithin tempDataSize unknown
      | some msg => sealWithin tempDataSize (msg ++ [0xfe] ++ padding)

/-- `datum_protocol_job_validation_cmd` on a request as it was received. The other two
    handlers read the index of the job only. -/
def jobValidationWithin (siphash : List UInt8 → List UInt8 → UInt64) (siphashKey : List UInt8)
    (data : List UInt8) : Option (Option (List UInt8)) :=
  data[0]?.bind fun cmd =>
  if data.length < 2 then some none
  else if cmd = 0x10 then
    data[1]?.bind fun jobIndex =>
    (sealWithin stxlistMsgSize
      (jobValidationStxlist jobs padding siphash siphashKey [jobIndex])).map some
  else if cmd = 0x11 then (stxlistByidWithin jobs padding (data.drop 1)).map some
  else if cmd = 0x12 then
    data[1]?.bind fun jobIndex =>
    (sealWithin tempDataSize (jobValidationSblock jobs padding [jobIndex])).map some
  else some none

/-- Nothing leaves the request or a buffer, and the length of a reply fits its header. -/
def AnsweredWithin (siphash : List UInt8 → List UInt8 → UInt64) (siphashKey : List UInt8)
    (data : List UInt8) : Prop :=
  ∃ reply, jobValidationWithin jobs padding siphash siphashKey data = some reply ∧
    ∀ msg ∈ reply, msg.length + cryptoBoxMacbytes < 2 ^ 22

end Bounded

/-! ## The loop -/

/-- The indexes in a list of words. -/
def sentIds : List UInt8 → List Nat
  | low :: high :: rest => leValue [low, high] :: sentIds rest
  | _ => []

/-- The transactions with these indexes, as they are sent. -/
def requestedBytes (txns : List ValidationTxn) (ids : List Nat) : List UInt8 :=
  ids.flatMap fun id => ((txns[id]?).map sizedTxn).getD []

theorem sentIds_drop_of_none {data : List UInt8} {k : Nat} (h : span data k 2 = none) :
    sentIds (data.drop k) = [] := by
  rw [span_eq_none_iff] at h
  rcases hdrop : data.drop k with _ | ⟨low, _ | ⟨high, rest⟩⟩
  · rfl
  · rfl
  · have hlength := congrArg List.length hdrop
    simp at hlength
    omega

theorem sentIds_drop_of_some {data id : List UInt8} {k : Nat} (h : span data k 2 = some id) :
    sentIds (data.drop k) = leValue id :: sentIds (data.drop (k + 2)) := by
  unfold span at h
  split_ifs at h with hinside
  obtain rfl := Option.some.inj h
  have hbehind : data.drop (k + 2) = (data.drop k).drop 2 := by
    rw [List.drop_drop]
  rw [hbehind]
  rcases hdrop : data.drop k with _ | ⟨low, _ | ⟨high, rest⟩⟩
  · have hlength := congrArg List.length hdrop
    simp at hlength
    omega
  · have hlength := congrArg List.length hdrop
    simp at hlength
    omega
  · rfl

/-- The loop copies the transactions in front of the first index that is not there, and
    does not end well if they do not fit or the indexes run out. -/
theorem requestedWithin_eq (txns : List ValidationTxn) (data : List UInt8) (count k : Nat)
    {msg : List UInt8} (hmsg : msg.length ≤ tempDataSize) :
    requestedWithin txns data count k msg =
      let ids := (sentIds (data.drop k)).take count
      let there := ids.takeWhile (· < txns.length)
      if tempDataSize < msg.length + (requestedBytes txns there).length then none
      else if there.length < ids.length then some none
      else if ids.length < count then none
      else some (some (msg ++ requestedBytes txns there)) := by
  induction count generalizing k msg with
  | zero => simp [requestedWithin, requestedBytes, hmsg]
  | succ count ih =>
    rw [requestedWithin]
    cases hspan : span data k 2 with
    | none => simp [sentIds_drop_of_none hspan, requestedBytes]
    | some id =>
      rw [Option.bind_some, sentIds_drop_of_some hspan]
      cases htxn : txns[leValue id]? with
      | none =>
        have hout : ¬ leValue id < txns.length :=
          Nat.not_lt.mpr (List.getElem?_eq_none_iff.mp htxn)
        simp [hout, requestedBytes, hmsg]
      | some txn =>
        have hin : leValue id < txns.length := (List.getElem?_eq_some_iff.mp htxn).1
        have hcons (ids : List Nat) :
            requestedBytes txns (leValue id :: ids) = sizedTxn txn ++ requestedBytes txns ids := by
          simp [requestedBytes, htxn]
        simp only [List.take_succ_cons, List.takeWhile_cons, hin, decide_true, if_true, hcons,
          List.length_cons, List.length_append, Nat.add_lt_add_iff_right]
        by_cases hroom : msg.length + (sizedTxn txn).length ≤ tempDataSize
        · rw [put_of_room hroom, Option.bind_some,
            ih (k + 2) (by rwa [List.length_append])]
          simp only [List.length_append, Nat.add_assoc, List.append_assoc]
        · rw [put_eq_none_iff.mpr (Nat.lt_of_not_le hroom), Option.bind_none, if_pos (by omega)]

/-! ## What fits -/

/-- A request for some transactions has a count; if it is one that the job can meet, then
    the transactions in front of the first unknown index fit the buffer, and where there
    is none, all indexes are there and the reply has a length. -/
def RequestFits (jobs : Fin 8 → ValidationJob) (padding data : List UInt8) : Prop :=
  data[0]? = some 0x11 → 2 ≤ data.length →
    4 ≤ data.length ∧
    ∀ txns, validationJob jobs padding 0x91 (data.getD 1 0) = .ok txns →
      let reqCount := leValue ((data.drop 2).take 2)
      reqCount ≠ 0 → reqCount ≤ txns.length →
        let ids := (sentIds (data.drop 4)).take reqCount
        let there := ids.takeWhile (· < txns.length)
        let size := 6 + (requestedBytes txns there).length
        size ≤ tempDataSize ∧
          (there.length = ids.length →
            ids.length = reqCount ∧ size + 1 + padding.length + cryptoBoxMacbytes < 2 ^ 22)

/-- The jobs have templates as the parser makes them, of at most four million bytes. -/
def RegisteredJobs (jobs : Fin 8 → ValidationJob) : Prop :=
  ∀ idx txns, jobs idx = .txns txns →
    txns.length ≤ 16383 ∧ (txns.map fun txn => txn.data.length).sum ≤ 4000000

section Fits

variable {jobs : Fin 8 → ValidationJob} {padding : List UInt8}

theorem sealWithin_of_le {room : Nat} {reply : List UInt8}
    (h : reply.length + cryptoBoxMacbytes ≤ room) : sealWithin room reply = some reply :=
  if_pos h

theorem length_of_validationJob_error {command jobIndex : UInt8} {reply : List UInt8}
    (h : validationJob jobs padding command jobIndex = .error reply) :
    reply.length = 4 + padding.length := by
  unfold validationJob at h
  split_ifs at h
  · split at h <;> cases h <;> simp [validationReply] <;> omega
  · cases h
    simp [validationReply]
    omega

theorem registered_of_validationJob (hjobs : RegisteredJobs jobs) {command jobIndex : UInt8}
    {txns : List ValidationTxn} (h : validationJob jobs padding command jobIndex = .ok txns) :
    txns.length ≤ 16383 ∧ (txns.map fun txn => txn.data.length).sum ≤ 4000000 := by
  unfold validationJob at h
  split_ifs at h
  split at h
  · cases h
  · cases h
  · next hjob =>
    cases h
    exact hjobs _ _ hjob

theorem length_sizedTxns (txns : List ValidationTxn) :
    (txns.flatMap sizedTxn).length =
      3 * txns.length + (txns.map fun txn => txn.data.length).sum := by
  induction txns with
  | nil => rfl
  | cons txn txns ih =>
    simp [ih, sizedTxn]
    omega

theorem length_shortIds (siphash : List UInt8 → List UInt8 → UInt64) (siphashKey : List UInt8)
    (txns : List ValidationTxn) :
    (txns.flatMap fun txn => leBytes 6 (siphash txn.hashBin siphashKey).toNat).length =
      6 * txns.length := by
  induction txns with
  | nil => rfl
  | cons txn txns ih =>
    simp [ih]
    omega

/-- The crosscheck has no more bytes than it starts with. -/
theorem length_crosscheck_le (txns : List ValidationTxn) (check : List UInt8) :
    (txns.foldl (fun check txn => List.zipWith (· ^^^ ·) check txn.hashBin) check).length ≤
      check.length := by
  induction txns generalizing check with
  | nil => exact Nat.le_refl _
  | cons txn txns ih =>
    rw [List.foldl_cons]
    refine Nat.le_trans (ih _) ?_
    rw [List.length_zipWith]
    exact Nat.min_le_left _ _

theorem length_stxlist_le (hpad : padding.length ≤ 111)
    (siphash : List UInt8 → List UInt8 → UInt64) (siphashKey data : List UInt8) :
    (jobValidationStxlist jobs padding siphash siphashKey data).length ≤ 98448 := by
  unfold jobValidationStxlist
  dsimp only
  split
  · next herror =>
    rw [length_of_validationJob_error herror]
    omega
  · next txns _ =>
    have hcheck := length_crosscheck_le txns crosscheckStart
    have hstart : crosscheckStart.length = 32 := rfl
    split_ifs
    · simp [validationReply]
      omega
    · simp [validationReply]
      omega
    · simp only [List.length_append, length_shortIds, length_leBytes]
      simp [validationReply]
      omega

theorem length_sblock_le (hjobs : RegisteredJobs jobs) (hpad : padding.length ≤ 111)
    (data : List UInt8) : (jobValidationSblock jobs padding data).length ≤ 4049156 := by
  unfold jobValidationSblock
  dsimp only
  split
  · next herror =>
    rw [length_of_validationJob_error herror]
    omega
  · next txns hok =>
    obtain ⟨hcount, htotal⟩ := registered_of_validationJob hjobs hok
    simp only [List.length_append, length_sizedTxns, length_leBytes]
    simp [validationReply]
    omega

theorem eq_of_sealWithin {room : Nat} {reply sealed : List UInt8}
    (h : sealWithin room reply = some sealed) : sealed = reply := by
  unfold sealWithin at h
  split_ifs at h
  exact (Option.some.inj h).symm

/-- What fits its header is sealed in `temp_data`. -/
theorem sealed_iff (reply : List UInt8) :
    (∃ sealed, sealWithin tempDataSize reply = some sealed ∧
      sealed.length + cryptoBoxMacbytes < 2 ^ 22) ↔
      reply.length + cryptoBoxMacbytes < 2 ^ 22 := by
  constructor
  · rintro ⟨sealed, hsealed, hfits⟩
    rwa [eq_of_sealWithin hsealed] at hfits
  · intro hfits
    refine ⟨reply, sealWithin_of_le ?_, hfits⟩
    rw [tempDataSize]
    omega

theorem sealed_short {reply : List UInt8} (h : reply.length ≤ 115) :
    ∃ sealed, sealWithin tempDataSize reply = some sealed ∧
      sealed.length + cryptoBoxMacbytes < 2 ^ 22 := by
  rw [sealed_iff, cryptoBoxMacbytes]
  omega

/-- A request whose first three bytes are there. -/
theorem stxlistByidWithin_eq {data count : List UInt8} {jobIndex : UInt8}
    (hindex : data[0]? = some jobIndex) (hcount : span data 1 2 = some count) :
    stxlistByidWithin jobs padding data =
      match validationJob jobs padding 0x91 jobIndex with
      | .error reply => sealWithin tempDataSize reply
      | .ok txns =>
        if leValue count = 0 ∨ leValue count > txns.length then
          sealWithin tempDataSize (validationReply 0x91 jobIndex 0xf4 ++ padding)
        else
          (requestedWithin txns data (leValue count) 3
              (validationReply 0x91 jobIndex 0x01 ++ count)).bind fun
            | none => sealWithin tempDataSize (validationReply 0x91 jobIndex 0xf4 ++ padding)
            | some msg => sealWithin tempDataSize (msg ++ [0xfe] ++ padding) := by
  rw [stxlistByidWithin, hindex, Option.bind_some, hcount, Option.bind_some]

/-- What the loop has to leave for a reply, by the transactions it gets to. -/
theorem stxlistByid_ok_iff (hpad : padding.length ≤ 111) {data : List UInt8}
    {txns : List ValidationTxn} {jobIndex : UInt8} {count : List UInt8}
    (hindex : data[0]? = some jobIndex) (hcount : span data 1 2 = some count)
    (hjob : validationJob jobs padding 0x91 jobIndex = .ok txns)
    (hpos : leValue count ≠ 0) (hle : leValue count ≤ txns.length) :
    (∃ reply, stxlistByidWithin jobs padding data = some reply ∧
        reply.length + cryptoBoxMacbytes < 2 ^ 22) ↔
      let ids := (sentIds (data.drop 3)).take (leValue count)
      let there := ids.takeWhile (· < txns.length)
      let size := 6 + (requestedBytes txns there).length
      size ≤ tempDataSize ∧
        (there.length = ids.length →
          ids.length = leValue count ∧
            size + 1 + padding.length + cryptoBoxMacbytes < 2 ^ 22) := by
  have htwo : count.length = 2 := length_of_span hcount
  have hmsg : (validationReply 0x91 jobIndex 0x01 ++ count).length = 6 := by
    simp [validationReply, htwo]
  have hunknown : (validationReply 0x91 jobIndex 0xf4 ++ padding).length ≤ 115 := by
    simp [validationReply]
    omega
  have hstart : (validationReply 0x91 jobIndex 0x01 ++ count).length ≤ tempDataSize := by
    rw [hmsg]
    decide
  rw [stxlistByidWithin_eq hindex hcount, hjob]
  dsimp only
  rw [if_neg (by omega), requestedWithin_eq txns data _ 3 hstart, hmsg]
  dsimp only
  have hids : ((sentIds (data.drop 3)).take (leValue count)).length ≤ leValue count :=
    List.length_take_le _ _
  generalize (sentIds (data.drop 3)).take (leValue count) = ids at hids ⊢
  have hprefix := (List.takeWhile_prefix (fun id => decide (id < txns.length)) (l := ids)).length_le
  generalize ids.takeWhile (fun id => decide (id < txns.length)) = there at hprefix ⊢
  by_cases hroom : tempDataSize < 6 + (requestedBytes txns there).length
  · rw [if_pos hroom]
    exact iff_of_false (by simp) fun h => absurd h.1 (Nat.not_le.mpr hroom)
  rw [if_neg hroom]
  by_cases hstop : there.length < ids.length
  · rw [if_pos hstop, Option.bind_some]
    exact iff_of_true (sealed_short hunknown) ⟨Nat.le_of_not_lt hroom, by omega⟩
  rw [if_neg hstop]
  by_cases hshort : ids.length < leValue count
  · rw [if_pos hshort]
    exact iff_of_false (by simp) fun h => absurd (h.2 (by omega)).1 (Nat.ne_of_lt hshort)
  · rw [if_neg hshort, Option.bind_some]
    dsimp only
    have hall : there.length = ids.length ∧ ids.length = leValue count := by omega
    have hlength : (validationReply 0x91 jobIndex 0x01 ++ count ++ requestedBytes txns there ++
        [0xfe] ++ padding).length =
        6 + (requestedBytes txns there).length + 1 + padding.length := by
      rw [List.length_append, List.length_append, List.length_append, hmsg, List.length_singleton]
    rw [sealed_iff, hlength]
    exact ⟨fun hfits => ⟨Nat.le_of_not_lt hroom, fun _ => ⟨hall.2, hfits⟩⟩,
      fun h => (h.2 hall.1).2⟩

/-- What a request for some transactions has to be. -/
theorem stxlistByid_iff (hpad : padding.length ≤ 111) {data : List UInt8} {jobIndex : UInt8}
    (hindex : data[0]? = some jobIndex) :
    (∃ reply, stxlistByidWithin jobs padding data = some reply ∧
        reply.length + cryptoBoxMacbytes < 2 ^ 22) ↔
      3 ≤ data.length ∧ ∀ txns, validationJob jobs padding 0x91 jobIndex = .ok txns →
        let reqCount := leValue ((data.drop 1).take 2)
        reqCount ≠ 0 → reqCount ≤ txns.length →
          let ids := (sentIds (data.drop 3)).take reqCount
          let there := ids.takeWhile (· < txns.length)
          let size := 6 + (requestedBytes txns there).length
          size ≤ tempDataSize ∧
            (there.length = ids.length →
              ids.length = reqCount ∧
                size + 1 + padding.length + cryptoBoxMacbytes < 2 ^ 22) := by
  cases hcount : span data 1 2 with
  | none =>
    have hshort : ¬ 3 ≤ data.length := Nat.not_le.mpr (span_eq_none_iff.mp hcount)
    simp [stxlistByidWithin, hindex, hcount, hshort]
  | some count =>
    have hlong : 3 ≤ data.length := by
      by_contra hshort
      rw [span_eq_none_iff.mpr (by omega)] at hcount
      cases hcount
    have hword : (data.drop 1).take 2 = count := by
      rw [span, if_pos (by omega)] at hcount
      exact Option.some.inj hcount
    rw [and_iff_right hlong, hword]
    cases hjob : validationJob jobs padding 0x91 jobIndex with
    | error reply =>
      refine iff_of_true ?_ (by rintro txns ⟨⟩)
      rw [stxlistByidWithin_eq hindex hcount, hjob]
      apply sealed_short
      rw [length_of_validationJob_error hjob]
      omega
    | ok txns =>
      by_cases hbad : leValue count = 0 ∨ leValue count > txns.length
      · refine iff_of_true ?_ ?_
        · rw [stxlistByidWithin_eq hindex hcount, hjob]
          dsimp only
          rw [if_pos hbad]
          apply sealed_short
          simp [validationReply]
          omega
        · rintro txns' htxns hpos hle
          cases htxns
          omega
      · rw [not_or] at hbad
        rw [stxlistByid_ok_iff hpad hindex hcount hjob hbad.1 (Nat.le_of_not_lt hbad.2)]
        constructor
        · rintro h txns' htxns reqCount - -
          cases htxns
          exact h
        · intro h
          exact h txns rfl hbad.1 (Nat.le_of_not_lt hbad.2)

theorem getElem?_one_of_long {data : List UInt8} (h : ¬ data.length < 2) :
    data[1]? = some (data.getD 1 0) := by
  simp [List.getElem?_eq_getElem (Nat.not_lt.mp h)]

theorem answeredWithin_of_short {siphash : List UInt8 → List UInt8 → UInt64}
    {siphashKey data : List UInt8} {cmd : UInt8} (hcmd : data[0]? = some cmd)
    (hshort : data.length < 2) : AnsweredWithin jobs padding siphash siphashKey data := by
  refine ⟨none, ?_, nofun⟩
  rw [jobValidationWithin, hcmd]
  exact if_pos hshort

/-- Requests for some transactions stay within their bounds if and only if they fit. -/
theorem answeredWithin_byid_iff (hpad : padding.length ≤ 111)
    (siphash : List UInt8 → List UInt8 → UInt64) (siphashKey : List UInt8) {data : List UInt8}
    (hkind : data[0]? = some 0x11) :
    AnsweredWithin jobs padding siphash siphashKey data ↔ RequestFits jobs padding data := by
  by_cases hshort : data.length < 2
  · exact iff_of_true (answeredWithin_of_short hkind hshort)
      fun _ hlong => absurd hshort (Nat.not_lt.mpr hlong)
  have hindex : (data.drop 1)[0]? = some (data.getD 1 0) := by
    rw [List.getElem?_drop]
    exact getElem?_one_of_long hshort
  have hfour : 3 ≤ (data.drop 1).length ↔ 4 ≤ data.length := by
    rw [List.length_drop]
    omega
  have hbyid := @stxlistByid_iff jobs padding hpad _ _ hindex
  rw [hfour, List.drop_drop, List.drop_drop] at hbyid
  unfold AnsweredWithin jobValidationWithin RequestFits
  rw [hkind, Option.bind_some, if_neg hshort, if_neg (by decide), if_pos rfl]
  refine Iff.trans ?_ (hbyid.trans ⟨fun h _ _ => h, fun h => h rfl (Nat.not_lt.mp hshort)⟩)
  simp

/-- Requests of the three kinds stay within their bounds if and only if those for some
    transactions fit. -/
theorem answeredWithin_iff (hjobs : RegisteredJobs jobs) (hpad : padding.length ≤ 111)
    (siphash : List UInt8 → List UInt8 → UInt64) (siphashKey : List UInt8) {data : List UInt8}
    (hkind : data[0]? = some 0x10 ∨ data[0]? = some 0x11 ∨ data[0]? = some 0x12) :
    AnsweredWithin jobs padding siphash siphashKey data ↔ RequestFits jobs padding data := by
  have hsent {room : Nat} {reply : List UInt8} (hroom : reply.length + cryptoBoxMacbytes ≤ room)
      (hfits : reply.length + cryptoBoxMacbytes < 2 ^ 22) :
      ∃ answer, (sealWithin room reply).map some = some answer ∧
        ∀ msg ∈ answer, msg.length + cryptoBoxMacbytes < 2 ^ 22 := by
    rw [sealWithin_of_le hroom]
    exact ⟨_, rfl, by simpa using hfits⟩
  rcases hkind with hkind | hkind | hkind
  · refine iff_of_true ?_ (by simp [RequestFits, hkind])
    by_cases hshort : data.length < 2
    · exact answeredWithin_of_short hkind hshort
    unfold AnsweredWithin jobValidationWithin
    rw [hkind, Option.bind_some, if_neg hshort, if_pos rfl, getElem?_one_of_long hshort,
      Option.bind_some]
    have hlength : (jobValidationStxlist jobs padding siphash siphashKey [data.getD 1 0]).length ≤
      98448 := length_stxlist_le hpad siphash siphashKey _
    refine hsent ?_ ?_
    · rw [cryptoBoxMacbytes, stxlistMsgSize]
      omega
    · rw [cryptoBoxMacbytes]
      omega
  · exact answeredWithin_byid_iff hpad siphash siphashKey hkind
  · refine iff_of_true ?_ (by simp [RequestFits, hkind])
    by_cases hshort : data.length < 2
    · exact answeredWithin_of_short hkind hshort
    unfold AnsweredWithin jobValidationWithin
    rw [hkind, Option.bind_some, if_neg hshort, if_neg (by decide), if_neg (by decide), if_pos rfl,
      getElem?_one_of_long hshort, Option.bind_some]
    have hlength := length_sblock_le hjobs hpad [data.getD 1 0]
    refine hsent ?_ ?_
    · rw [cryptoBoxMacbytes, tempDataSize]
      omega
    · rw [cryptoBoxMacbytes]
      omega

end Fits

/-! ## The same replies -/

section Same

variable {jobs : Fin 8 → ValidationJob} {padding : List UInt8}

/-- A field of the request is where it was received. -/
theorem bytesAt_append_of_span {data field : List UInt8} {offset size : Nat}
    (h : span data offset size = some field) (rest : List UInt8) :
    bytesAt (data ++ rest) offset size = field := by
  have hinside : offset + size ≤ data.length := by
    by_contra hout
    rw [span_eq_none_iff.mpr (by omega)] at h
    cases h
  exact Option.some.inj ((span_eq_bytesAt data rest hinside).symm.trans h)

theorem requestedTxns_of_within {txns : List ValidationTxn} {data : List UInt8} {count k : Nat}
    {msg : List UInt8} {built : Option (List UInt8)}
    (h : requestedWithin txns data count k msg = some built) (rest : List UInt8) :
    built = (requestedTxns txns (data ++ rest) count k).map (msg ++ ·) := by
  induction count generalizing k msg with
  | zero =>
    cases h
    simp [requestedTxns]
  | succ count ih =>
    rw [requestedWithin] at h
    obtain ⟨id, hspan, h⟩ := Option.bind_eq_some_iff.mp h
    rw [requestedTxns, bytesAt_append_of_span hspan rest]
    cases htxn : txns[leValue id]? with
    | none =>
      rw [htxn] at h
      cases h
      rfl
    | some txn =>
      rw [htxn] at h
      obtain ⟨grown, hput, h⟩ := Option.bind_eq_some_iff.mp h
      unfold put at hput
      split_ifs at hput
      cases hput
      rw [ih h, Option.bind_some, Option.map_map]
      simp [Function.comp_def]

/-- A byte of the request is where it was received. -/
theorem getD_append_of_getElem? {data : List UInt8} {byte : UInt8} {i : Nat}
    (h : data[i]? = some byte) (rest : List UInt8) : (data ++ rest).getD i 0 = byte := by
  obtain ⟨hlt, -⟩ := List.getElem?_eq_some_iff.mp h
  exact Option.some.inj ((getElem?_append_of_lt data rest 0 hlt).symm.trans h)

theorem stxlistByid_of_within {data reply : List UInt8}
    (h : stxlistByidWithin jobs padding data = some reply) (rest : List UInt8) :
    jobValidationStxlistByid jobs padding (data ++ rest) = reply := by
  unfold stxlistByidWithin at h
  obtain ⟨jobIndex, hindex, h⟩ := Option.bind_eq_some_iff.mp h
  obtain ⟨count, hcount, h⟩ := Option.bind_eq_some_iff.mp h
  have hmem := getD_append_of_getElem? hindex rest
  have hword := bytesAt_append_of_span hcount rest
  unfold jobValidationStxlistByid
  dsimp only at h ⊢
  rw [hmem, hword]
  cases hjob : validationJob jobs padding 0x91 jobIndex with
  | error unavailable =>
    rw [hjob] at h
    exact (eq_of_sealWithin h).symm
  | ok txns =>
    rw [hjob] at h
    dsimp only at h ⊢
    by_cases hbad : leValue count = 0 ∨ leValue count > txns.length
    · rw [if_pos hbad] at h ⊢
      exact (eq_of_sealWithin h).symm
    · rw [if_neg hbad] at h ⊢
      obtain ⟨built, hbuilt, h⟩ := Option.bind_eq_some_iff.mp h
      have hloop := requestedTxns_of_within hbuilt rest
      cases hsized : requestedTxns txns (data ++ rest) (leValue count) 3 with
      | none =>
        rw [hsized] at hloop
        subst hloop
        exact (eq_of_sealWithin h).symm
      | some sized =>
        rw [hsized] at hloop
        subst hloop
        rw [eq_of_sealWithin h, leBytes_leValue (length_of_span hcount)]

/-- Inside its bounds a request is replied to as it would be with more memory. -/
theorem jobValidationCmd_of_within {siphash : List UInt8 → List UInt8 → UInt64}
    {siphashKey data : List UInt8} {reply : Option (List UInt8)}
    (h : jobValidationWithin jobs padding siphash siphashKey data = some reply)
    (rest : List UInt8) :
    jobValidationCmd jobs padding siphash siphashKey data.length (data ++ rest) = reply := by
  unfold jobValidationWithin at h
  obtain ⟨cmd, hcmd, h⟩ := Option.bind_eq_some_iff.mp h
  have hcmd' := getD_append_of_getElem? hcmd rest
  unfold jobValidationCmd
  rw [hcmd']
  by_cases hshort : data.length < 2
  · rw [if_pos hshort] at h ⊢
    exact Option.some.inj h
  rw [if_neg hshort] at h ⊢
  have hbehind : (data ++ rest).drop 1 = data.drop 1 ++ rest :=
    List.drop_append_of_le_length (by omega)
  have hfirst {jobIndex : UInt8} (h : data[1]? = some jobIndex) :
      (data.drop 1 ++ rest).getD 0 0 = [jobIndex].getD 0 0 :=
    getD_append_of_getElem? (by rwa [List.getElem?_drop]) rest
  by_cases hlist : cmd = 0x10
  · rw [if_pos hlist] at h ⊢
    obtain ⟨jobIndex, hindex, h⟩ := Option.bind_eq_some_iff.mp h
    obtain ⟨sealed, hsealed, rfl⟩ := Option.map_eq_some_iff.mp h
    rw [eq_of_sealWithin hsealed, hbehind, jobValidationStxlist, hfirst hindex]
    rfl
  rw [if_neg hlist] at h ⊢
  by_cases hbyid : cmd = 0x11
  · rw [if_pos hbyid] at h ⊢
    obtain ⟨sealed, hsealed, rfl⟩ := Option.map_eq_some_iff.mp h
    rw [hbehind, stxlistByid_of_within hsealed]
  rw [if_neg hbyid] at h ⊢
  by_cases hblock : cmd = 0x12
  · rw [if_pos hblock] at h ⊢
    obtain ⟨jobIndex, hindex, h⟩ := Option.bind_eq_some_iff.mp h
    obtain ⟨sealed, hsealed, rfl⟩ := Option.map_eq_some_iff.mp h
    rw [eq_of_sealWithin hsealed, hbehind, jobValidationSblock, hfirst hindex]
    rfl
  · rw [if_neg hblock] at h ⊢
    exact Option.some.inj h

end Same

/-! ## Two requests that leave their bounds -/

/-- A job with two transactions. -/
def twoTxns (first second : Nat) : List ValidationTxn :=
  [⟨[], List.replicate first 0⟩, ⟨[], List.replicate second 0⟩]

def twoTxnJob (first second : Nat) : Fin 8 → ValidationJob :=
    fun _ => .txns (twoTxns first second)

theorem twoTxnJob_registered {first second : Nat} (h : first + second ≤ 4000000) :
    RegisteredJobs (twoTxnJob first second) := by
  rintro idx txns hjob
  cases hjob
  simpa [twoTxns] using h

theorem validationJob_twoTxnJob (first second : Nat) :
    validationJob (twoTxnJob first second) [0] 0x91 0 = .ok (twoTxns first second) := rfl

theorem length_requestedBytes_twoTxns (first second : Nat) :
    (requestedBytes (twoTxns first second) [1]).length = 3 + second ∧
      (requestedBytes (twoTxns first second) [0, 0]).length = 6 + 2 * first := by
  simp [requestedBytes, twoTxns, sizedTxn]
  omega

/-- The second transaction can be asked for. -/
theorem secondRequest_fits {first second : Nat} (h : second ≤ 100000) :
    RequestFits (twoTxnJob first second) [0] [0x11, 0, 1, 0, 1, 0] := by
  refine fun _ _ => ⟨by decide, ?_⟩
  intro txns htxns reqCount _ _
  cases htxns
  have hlength := (length_requestedBytes_twoTxns first second).1
  show 6 + (requestedBytes (twoTxns first second) [1]).length ≤ tempDataSize ∧
    (_ → _ ∧ 6 + (requestedBytes (twoTxns first second) [1]).length + 1 + 1 + 16 < 2 ^ 22)
  rw [hlength, tempDataSize]
  refine ⟨by omega, fun _ => ⟨rfl, by omega⟩⟩

/-- The first transaction twice can be more than the buffer. -/
theorem firstRequest_not_fits {first second : Nat} (h : 2200000 ≤ first) :
    ¬ RequestFits (twoTxnJob first second) [0] [0x11, 0, 2, 0, 0, 0, 0, 0] := by
  intro hfits
  obtain ⟨hroom, -⟩ := (hfits rfl (by decide)).2 _ (validationJob_twoTxnJob first second)
    (by decide) (Nat.le_refl 2)
  have hlength := (length_requestedBytes_twoTxns first second).2
  have hsize : 6 + (requestedBytes (twoTxns first second) [0, 0]).length ≤ tempDataSize := hroom
  rw [hlength, tempDataSize] at hsize
  omega

theorem secondRequest_answeredWithin :
    AnsweredWithin (twoTxnJob 3900000 60) [0] (fun _ _ => 0) [] [0x11, 0, 1, 0, 1, 0] :=
  (answeredWithin_iff (twoTxnJob_registered (by decide)) (by decide) (fun _ _ => 0) []
    (Or.inr (Or.inl rfl))).mpr (secondRequest_fits (by decide))

/-- A request that ends behind the index of the job is read past its end, and one for the
    first of two transactions twice, of 3.9 million bytes, is more than the buffer. -/
theorem requests_not_answeredWithin :
    ¬ AnsweredWithin (twoTxnJob 3900000 60) [0] (fun _ _ => 0) [] [0x11, 0] ∧
      ¬ AnsweredWithin (twoTxnJob 3900000 60) [0] (fun _ _ => 0) []
        [0x11, 0, 2, 0, 0, 0, 0, 0] := by
  rw [answeredWithin_byid_iff (by decide) _ _ rfl, answeredWithin_byid_iff (by decide) _ _ rfl]
  refine ⟨fun hfits => ?_, firstRequest_not_fits (by decide)⟩
  exact absurd (hfits rfl (by decide)).1 (by decide)

end ChirpGateway
