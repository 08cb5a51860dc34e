import Mathlib.Algebra.Group.Nat.Defs
import Mathlib.Data.List.Basic
import Mathlib.Tactic.SplitIfs

/-!
# Transactions on the wire

Little-endian numbers, the variable-length count, outputs, and reading the
outputs back out of a serialized transaction.
-/

namespace Wire

/-! ## Little-endian numbers -/

/-- The low bytes of a number, least significant first. -/
def leBytes : (size n : Nat) → List UInt8
  | 0, _ => []
  | size + 1, n => UInt8.ofNat n :: leBytes size (n / 256)

/-- The number little-endian bytes denote. -/
def leValue (bytes : List UInt8) : Nat :=
  bytes.foldr (fun byte rest => byte.toNat + 256 * rest) 0

@[simp] theorem length_leBytes (size n : Nat) : (leBytes size n).length = size := by
  induction size generalizing n with
  | zero => rfl
  | succ size ih => rw [leBytes, List.length_cons, ih]

theorem leBytes_zero (size : Nat) : leBytes size 0 = List.replicate size 0 := by
  induction size with
  | zero => rfl
  | succ size ih => rw [leBytes, Nat.zero_div, ih, List.replicate_succ]; rfl

theorem leValue_leBytes (size n : Nat) : leValue (leBytes size n) = n % 256 ^ size := by
  induction size generalizing n with
  | zero => rw [Nat.pow_zero, Nat.mod_one]; rfl
  | succ size ih =>
    have hbyte : (UInt8.ofNat n).toNat = n % 256 := UInt8.toNat_ofNat'
    have hstep : leValue (leBytes (size + 1) n) =
        (UInt8.ofNat n).toNat + 256 * leValue (leBytes size (n / 256)) := rfl
    rw [hstep, ih, hbyte, Nat.pow_succ, Nat.mul_comm (256 ^ size) 256, Nat.mod_mul]

theorem leValue_leBytes_of_lt {size n : Nat} (h : n < 256 ^ size) :
    leValue (leBytes size n) = n := by
  rw [leValue_leBytes, Nat.mod_eq_of_lt h]

/-- Byte strings of one length that denote the same number are the same. -/
theorem eq_of_leValue_eq {bytes others : List UInt8} (hlen : bytes.length = others.length)
    (hvalue : leValue bytes = leValue others) : bytes = others := by
  induction bytes generalizing others with
  | nil => exact (List.eq_nil_of_length_eq_zero hlen.symm).symm
  | cons byte bytes ih =>
    cases others with
    | nil => cases hlen
    | cons other others =>
      have hstep : byte.toNat + 256 * leValue bytes = other.toNat + 256 * leValue others := hvalue
      have hbyte := byte.toNat_lt
      have hother := other.toNat_lt
      have hfirst : byte = other := UInt8.toNat_inj.mp (by omega)
      rw [hfirst, ih (Nat.succ.inj hlen) (by omega)]

theorem leValue_lt (bytes : List UInt8) : leValue bytes < 256 ^ bytes.length := by
  induction bytes with
  | nil => exact Nat.one_pos
  | cons byte bytes ih =>
    have hstep : leValue (byte :: bytes) = byte.toNat + 256 * leValue bytes := rfl
    have hbyte := byte.toNat_lt
    rw [hstep, List.length_cons, Nat.pow_succ]
    omega

/-- What follows some bytes counts by their number. -/
theorem leValue_append (bytes others : List UInt8) :
    leValue (bytes ++ others) = leValue bytes + 256 ^ bytes.length * leValue others := by
  induction bytes with
  | nil => simp [leValue]
  | cons byte bytes ih =>
    have hstep : ∀ rest, leValue (byte :: rest) = byte.toNat + 256 * leValue rest := fun _ => rfl
    rw [List.cons_append, hstep, hstep, ih, List.length_cons, Nat.pow_succ,
      Nat.mul_comm (256 ^ bytes.length) 256, Nat.mul_assoc, Nat.mul_add, Nat.add_assoc]

/-- A number in bytes, with that of some more bytes behind it. -/
theorem leBytes_append {size n : Nat} (h : n < 256 ^ size) (more m : Nat) :
    leBytes size n ++ leBytes more m = leBytes (size + more) (n + 256 ^ size * m) := by
  apply eq_of_leValue_eq
  · simp
  · rw [leValue_append, leValue_leBytes_of_lt h, length_leBytes, leValue_leBytes, leValue_leBytes,
      Nat.pow_add, Nat.mod_mul, Nat.add_mul_mod_self_left, Nat.mod_eq_of_lt h,
      Nat.add_mul_div_left _ _ (Nat.pow_pos (by decide)), Nat.div_eq_of_lt h, Nat.zero_add]

/-- One byte more is the next higher one. -/
theorem leBytes_succ_last (size n : Nat) :
    leBytes (size + 1) n = leBytes size n ++ [UInt8.ofNat (n / 256 ^ size)] := by
  induction size generalizing n with
  | zero => simp [leBytes]
  | succ size ih =>
    rw [leBytes, ih, leBytes, List.cons_append, Nat.div_div_eq_div_mul, ← Nat.pow_succ']

theorem leValue_drop (bytes : List UInt8) (count : Nat) :
    leValue (bytes.drop count) = leValue bytes / 256 ^ count := by
  have hpow : 0 < 256 ^ count := Nat.pow_pos (by decide)
  by_cases hcount : count ≤ bytes.length
  · have hfront := leValue_lt (bytes.take count)
    have hsplit := leValue_append (bytes.take count) (bytes.drop count)
    rw [List.length_take_of_le hcount] at hfront hsplit
    rw [List.take_append_drop] at hsplit
    rw [hsplit, Nat.add_mul_div_left _ _ hpow, Nat.div_eq_of_lt hfront, Nat.zero_add]
  · have hshort : leValue bytes < 256 ^ count :=
      Nat.lt_of_lt_of_le (leValue_lt bytes) (Nat.pow_le_pow_right (by decide) (by omega))
    rw [List.drop_eq_nil_of_le (by omega), Nat.div_eq_of_lt hshort]
    rfl

@[simp] theorem leValue_replicate_zero (count : Nat) : leValue (List.replicate count 0) = 0 := by
  rw [← leBytes_zero, leValue_leBytes, Nat.zero_mod]

theorem leBytes_leValue {bytes : List UInt8} {size : Nat} (h : bytes.length = size) :
    leBytes size (leValue bytes) = bytes := by
  apply eq_of_leValue_eq
  · rw [length_leBytes, h]
  · rw [leValue_leBytes_of_lt (h ▸ leValue_lt bytes)]

/-! ## Counts -/

/-- The shortest form of a count. -/
def varint (n : Nat) : List UInt8 :=
  if n < 0xfd then [UInt8.ofNat n]
  else if n ≤ 0xffff then 0xfd :: leBytes 2 n
  else if n ≤ 0xffffffff then 0xfe :: leBytes 4 n
  else 0xff :: leBytes 8 n

/-- How many bytes follow the first one. -/
def varintSize (first : UInt8) : Nat :=
  if first = 0xfd then 2 else if first = 0xfe then 4 else if first = 0xff then 8 else 0

/-- A count and what follows it. -/
def readVarint : List UInt8 → Option (Nat × List UInt8)
  | [] => none
  | first :: rest =>
    if varintSize first = 0 then
      some (first.toNat, rest)
    else if varintSize first ≤ rest.length then
      some (leValue (rest.take (varintSize first)), rest.drop (varintSize first))
    else
      none

theorem readVarint_wide {first : UInt8} (size : Nat) {n : Nat} (hfirst : varintSize first = size)
    (hsize : size ≠ 0) (hn : n < 256 ^ size) (rest : List UInt8) :
    readVarint (first :: (leBytes size n ++ rest)) = some (n, rest) := by
  have hlen : size ≤ (leBytes size n ++ rest).length := by
    rw [List.length_append, length_leBytes]
    omega
  have htake : (leBytes size n ++ rest).take size = leBytes size n :=
    List.take_left' (length_leBytes size n)
  have hdrop : (leBytes size n ++ rest).drop size = rest :=
    List.drop_left' (length_leBytes size n)
  rw [readVarint, hfirst, if_neg hsize, if_pos hlen, htake, hdrop, leValue_leBytes_of_lt hn]

theorem readVarint_varint {n : Nat} (hn : n < 2 ^ 64) (rest : List UInt8) :
    readVarint (varint n ++ rest) = some (n, rest) := by
  rw [varint]
  split_ifs with hbyte htwo hfour
  · have hvalue : (UInt8.ofNat n).toNat = n :=
      UInt8.toNat_ofNat_of_lt' (Nat.lt_trans hbyte (by decide))
    have hfirst : varintSize (UInt8.ofNat n) = 0 := by
      have hne : ∀ marker : UInt8, 0xfd ≤ marker.toNat → UInt8.ofNat n ≠ marker := by
        intro marker hmarker heq
        rw [← heq, hvalue] at hmarker
        omega
      rw [varintSize, if_neg (hne _ (by decide)), if_neg (hne _ (by decide)),
        if_neg (hne _ (by decide))]
    rw [List.singleton_append, readVarint, if_pos hfirst, hvalue]
  · exact readVarint_wide 2 rfl (by decide) (by omega) rest
  · exact readVarint_wide 4 rfl (by decide) (by omega) rest
  · exact readVarint_wide 8 rfl (by decide) (by omega) rest

/-! ## Outputs -/

/-- A transaction output. -/
structure TxOut where
  value : Nat
  script : List UInt8
  deriving DecidableEq, Repr

/-- An output whose numbers fit their fields. -/
structure TxOut.Fits (output : TxOut) : Prop where
  value_lt : output.value < 2 ^ 64
  script_lt : output.script.length < 2 ^ 64

/-- The wire form of an output. -/
def TxOut.encode (output : TxOut) : List UInt8 :=
  leBytes 8 output.value ++ varint output.script.length ++ output.script

/-- What follows the first bytes. -/
def skip (size : Nat) (bytes : List UInt8) : Option (List UInt8) :=
  if size ≤ bytes.length then some (bytes.drop size) else none

/-- An output and what follows it. -/
def readOutput (bytes : List UInt8) : Option (TxOut × List UInt8) := do
  let afterValue ← skip 8 bytes
  let (size, afterSize) ← readVarint afterValue
  let rest ← skip size afterSize
  some ({ value := leValue (bytes.take 8), script := afterSize.take size }, rest)

/-- So many outputs, and what follows them. -/
def readOutputs : (count : Nat) → List UInt8 → Option (List TxOut × List UInt8)
  | 0, bytes => some ([], bytes)
  | count + 1, bytes => do
    let (output, rest) ← readOutput bytes
    let (outputs, rest) ← readOutputs count rest
    some (output :: outputs, rest)

theorem skip_append {size : Nat} {front : List UInt8} (h : front.length = size)
    (rest : List UInt8) : skip size (front ++ rest) = some rest := by
  have hlen : size ≤ (front ++ rest).length := by
    rw [List.length_append]
    omega
  rw [skip, if_pos hlen, List.drop_left' h]

theorem readOutput_encode {output : TxOut} (h : output.Fits) (rest : List UInt8) :
    readOutput (output.encode ++ rest) = some (output, rest) := by
  have hbytes : output.encode ++ rest =
      leBytes 8 output.value ++ (varint output.script.length ++ (output.script ++ rest)) := by
    simp only [TxOut.encode, List.append_assoc]
  rw [hbytes, readOutput, skip_append (length_leBytes 8 _), Option.bind_eq_bind,
    Option.bind_some, readVarint_varint h.script_lt]
  simp only [Option.bind_eq_bind, Option.bind_some, skip_append rfl]
  rw [List.take_left' (length_leBytes 8 _), leValue_leBytes_of_lt h.value_lt,
    List.take_left' rfl]

theorem readOutputs_encode {outputs : List TxOut} (h : ∀ output ∈ outputs, output.Fits)
    (rest : List UInt8) :
    readOutputs outputs.length (outputs.flatMap TxOut.encode ++ rest) = some (outputs, rest) := by
  induction outputs with
  | nil => rfl
  | cons output outputs ih =>
    obtain ⟨houtput, houtputs⟩ := List.forall_mem_cons.mp h
    rw [List.length_cons, List.flatMap_cons, List.append_assoc, readOutputs,
      readOutput_encode houtput]
    simp only [Option.bind_eq_bind, Option.bind_some, ih houtputs]

/-! ## Fixed fields -/

/-- The first bytes and what follows them. -/
def readBytes (size : Nat) (bytes : List UInt8) : Option (List UInt8 × List UInt8) :=
  if size ≤ bytes.length then some (bytes.take size, bytes.drop size) else none

/-- A little-endian number and what follows it. -/
def readLe (size : Nat) (bytes : List UInt8) : Option (Nat × List UInt8) :=
  (readBytes size bytes).map fun fields => (leValue fields.1, fields.2)

theorem readBytes_append {size : Nat} {front : List UInt8} (h : front.length = size)
    (rest : List UInt8) : readBytes size (front ++ rest) = some (front, rest) := by
  have hlen : size ≤ (front ++ rest).length := by
    rw [List.length_append]
    omega
  rw [readBytes, if_pos hlen, List.take_left' h, List.drop_left' h]

theorem readLe_append {size n : Nat} (hn : n < 256 ^ size) (rest : List UInt8) :
    readLe size (leBytes size n ++ rest) = some (n, rest) := by
  rw [readLe, readBytes_append (length_leBytes size n), Option.map_some, leValue_leBytes_of_lt hn]

/-! ## Transactions -/

/-- What follows an input: the outpoint, the script and the sequence are
    skipped. -/
def skipInput (bytes : List UInt8) : Option (List UInt8) := do
  let afterOutpoint ← skip 36 bytes
  let (size, afterSize) ← readVarint afterOutpoint
  skip (size + 4) afterSize

/-- What follows so many inputs. -/
def skipInputs : (count : Nat) → List UInt8 → Option (List UInt8)
  | 0, bytes => some bytes
  | count + 1, bytes => (skipInput bytes).bind (skipInputs count)

/-- The outputs of a transaction serialized without witness. -/
def readVout (tx : List UInt8) : Option (List TxOut) := do
  let afterVersion ← skip 4 tx
  let (inputs, afterCount) ← readVarint afterVersion
  let afterInputs ← skipInputs inputs afterCount
  let (count, afterCount) ← readVarint afterInputs
  let (outputs, _) ← readOutputs count afterCount
  some outputs

/-- The outputs of a transaction with one input are read back. -/
theorem readVout_eq {version outpoint script sequence : List UInt8} {outputs : List TxOut}
    (hversion : version.length = 4) (houtpoint : outpoint.length = 36)
    (hscript : script.length < 2 ^ 64) (hsequence : sequence.length = 4)
    (hcount : outputs.length < 2 ^ 64) (houtputs : ∀ output ∈ outputs, output.Fits)
    (rest : List UInt8) :
    readVout (version ++ (varint 1 ++ (outpoint ++ (varint script.length ++
      ((script ++ sequence) ++ (varint outputs.length ++
        (outputs.flatMap TxOut.encode ++ rest))))))) = some outputs := by
  have hinput : (script ++ sequence).length = script.length + 4 := by
    rw [List.length_append, hsequence]
  have hone : (1 : Nat) < 2 ^ 64 := by decide
  simp only [readVout, Option.bind_eq_bind, skip_append hversion, Option.bind_some,
    readVarint_varint hone, skipInputs, skipInput, skip_append houtpoint,
    readVarint_varint hscript, skip_append hinput, readVarint_varint hcount,
    readOutputs_encode houtputs]

end Wire
