import ChirpGateway.Lib.Bytes
import ChirpGateway.Lib.Tables
import ChirpGateway.Lib.Wire
import ChirpGateway.Lib.Within

/-!
# Replies to job validation

What the server asks about the transactions of a job
(`datum_protocol.c:432-888`): short IDs of all, some of them, or all of them.
`siphash` is `datum_siphash_mod8`. Every reply ends with some random padding,
except the one with all transactions.
-/

namespace ChirpGateway

open Bytes Wire

/-- A transaction of a template, as the replies read it. -/
structure ValidationTxn where
  hashBin : List UInt8
  data : List UInt8
  deriving DecidableEq

/-- An entry of `datum_jobs`: no job, a job without a template, or the transactions
    of its template. -/
inductive ValidationJob where
  | none
  | noTemplate
  | txns (txns : List ValidationTxn)
  deriving DecidableEq

/-- The bytes of memory from a place on. -/
def bytesAt (data : List UInt8) (offset size : Nat) : List UInt8 :=
  (List.range size).map fun i => data.getD (offset + i) 0

theorem bytesAt_eq_take_drop {data : List UInt8} {offset size : Nat}
    (h : offset + size ≤ data.length) :
    bytesAt data offset size = (data.drop offset).take size := by
  apply List.ext_getElem
  · simp [bytesAt]
    omega
  · intro i hi _
    simp only [bytesAt, List.length_map, List.length_range] at hi
    simp [bytesAt, show offset + i < data.length by omega]

/-- A field inside the message is what the memory holds there. -/
theorem span_eq_bytesAt (msg rest : List UInt8) {offset size : Nat}
    (h : offset + size ≤ msg.length) :
    Within.span msg offset size = some (bytesAt (msg ++ rest) offset size) := by
  rw [Within.span_append msg rest h, bytesAt_eq_take_drop]
  rw [List.length_append]
  omega

/-- Which validation the reply is for, and whether it is one. -/
def validationReply (command jobIndex status : UInt8) : List UInt8 :=
  [0x50, command, jobIndex, status]

section Replies

variable (jobs : Fin 8 → ValidationJob) (padding : List UInt8)

/-- The job a request names, or the reply that there is none. -/
def validationJob (command jobIndex : UInt8) : Except (List UInt8) (List ValidationTxn) :=
  if h : jobIndex.toNat < 8 then
    match jobs ⟨jobIndex.toNat, h⟩ with
    | .none => .error (validationReply command jobIndex 0xf0 ++ padding)
    | .noTemplate => .error (validationReply command jobIndex 0xf1 ++ padding)
    | .txns txns => .ok txns
  else
    .error (validationReply command 0xff 0xf3 ++ padding)

/-- The start of the running xor of all hashes. -/
def crosscheckStart : List UInt8 :=
  [0xa3, 0x4f, 0xc1, 0x9c, 0x5e, 0x88, 0x76, 0x12,
    0x0a, 0x79, 0x3e, 0xf1, 0x6c, 0x93, 0x54, 0xaf,
    0xb8, 0x1d, 0xe8, 0x5a, 0x20, 0xc7, 0x94, 0x38,
    0x6f, 0xa1, 0x02, 0xd9, 0x4a, 0x7b, 0xf0, 0x11]

/-- A transaction with its size in three bytes. -/
def sizedTxn (txn : ValidationTxn) : List UInt8 := leBytes 3 txn.data.length ++ txn.data

/-- `datum_protocol_job_validation_stxlist`. -/
def jobValidationStxlist (siphash : List UInt8 → List UInt8 → UInt64) (siphashKey : List UInt8)
    (data : List UInt8) : List UInt8 :=
  let jobIndex := data.getD 0 0
  match validationJob jobs padding 0x90 jobIndex with
  | .error reply => reply
  | .ok txns =>
    if txns.length = 0 then validationReply 0x90 jobIndex 0x01 ++ [0, 0] ++ padding
    else if txns.length > 16383 then validationReply 0x90 jobIndex 0xf2 ++ padding
    else
      let shortIds := txns.flatMap fun txn => leBytes 6 (siphash txn.hashBin siphashKey).toNat
      let crosscheck := txns.foldl (fun check txn => List.zipWith (· ^^^ ·) check txn.hashBin)
        crosscheckStart
      validationReply 0x90 jobIndex 0x01 ++ leBytes 2 txns.length ++ shortIds ++ crosscheck ++
        [0xfe] ++ padding

/-- The transactions with these indexes; `none` is one that is not there. -/
def requestedTxns (txns : List ValidationTxn) (data : List UInt8) :
    (count offset : Nat) → Option (List UInt8)
  | 0, _ => some []
  | count + 1, offset =>
    (txns[leValue (bytesAt data offset 2)]?).bind fun txn =>
      (requestedTxns txns data count (offset + 2)).map fun rest => sizedTxn txn ++ rest

/-- `datum_protocol_job_validation_stxlist_byid`. -/
def jobValidationStxlistByid (data : List UInt8) : List UInt8 :=
  let jobIndex := data.getD 0 0
  let reqCount := leValue (bytesAt data 1 2)
  match validationJob jobs padding 0x91 jobIndex with
  | .error reply => reply
  | .ok txns =>
    if reqCount = 0 ∨ reqCount > txns.length then validationReply 0x91 jobIndex 0xf4 ++ padding
    else
      match requestedTxns txns data reqCount 3 with
      | none => validationReply 0x91 jobIndex 0xf4 ++ padding
      | some sized =>
        validationReply 0x91 jobIndex 0x01 ++ leBytes 2 reqCount ++ sized ++ [0xfe] ++ padding

/-- `datum_protocol_job_validation_sblock`. -/
def jobValidationSblock (data : List UInt8) : List UInt8 :=
  let jobIndex := data.getD 0 0
  match validationJob jobs padding 0x92 jobIndex with
  | .error reply => reply
  | .ok txns =>
    validationReply 0x92 jobIndex 0x01 ++ leBytes 2 txns.length ++ txns.flatMap sizedTxn ++ [0xfe]

/-- `datum_protocol_job_validation_cmd`: the reply, if there is one. -/
def jobValidationCmd (siphash : List UInt8 → List UInt8 → UInt64) (siphashKey : List UInt8)
    (len : Nat) (data : List UInt8) : Option (List UInt8) :=
  if len < 2 then none
  else if data.getD 0 0 = 0x10 then
    some (jobValidationStxlist jobs padding siphash siphashKey (data.drop 1))
  else if data.getD 0 0 = 0x11 then some (jobValidationStxlistByid jobs padding (data.drop 1))
  else if data.getD 0 0 = 0x12 then some (jobValidationSblock jobs padding (data.drop 1))
  else none

/-- A request for the transactions of a job. -/
def IsValidationRequest (len : Nat) (data : List UInt8) : Prop :=
  2 ≤ len ∧ (data.getD 0 0 = 0x10 ∨ data.getD 0 0 = 0x11 ∨ data.getD 0 0 = 0x12)

/-- Such a request is always replied to, and nothing else is. -/
theorem isSome_jobValidationCmd (siphash : List UInt8 → List UInt8 → UInt64)
    (siphashKey : List UInt8) (len : Nat) (data : List UInt8) :
    (jobValidationCmd jobs padding siphash siphashKey len data).isSome = true ↔
      IsValidationRequest len data := by
  rw [jobValidationCmd, IsValidationRequest]
  by_cases hlen : len < 2
  · rw [if_pos hlen]
    exact ⟨nofun, fun h => absurd h.1 (Nat.not_le.mpr hlen)⟩
  · rw [if_neg hlen, and_iff_right (Nat.not_lt.mp hlen)]
    split_ifs with hlist hbyid hblock
    · exact iff_of_true rfl (Or.inl hlist)
    · exact iff_of_true rfl (Or.inr (Or.inl hbyid))
    · exact iff_of_true rfl (Or.inr (Or.inr hblock))
    · refine iff_of_false nofun ?_
      rintro (h | h | h)
      · exact hlist h
      · exact hbyid h
      · exact hblock h

end Replies

end ChirpGateway
