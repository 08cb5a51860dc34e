import ChirpGateway.Lib.Wire

/-!
# Transactions to the last byte

A transaction serialized without witness, with its inputs, and reading one back
where nothing may be left over.
-/

namespace Wire

universe u

/-! ## Lists of items -/

/-- So many items, and what follows them. -/
def readMany {α : Type u} (read : List UInt8 → Option (α × List UInt8)) :
    (count : Nat) → List UInt8 → Option (List α × List UInt8)
  | 0, bytes => some ([], bytes)
  | count + 1, bytes => do
    let (item, rest) ← read bytes
    let (items, rest) ← readMany read count rest
    some (item :: items, rest)

theorem readMany_flatMap {α : Type u} {read : List UInt8 → Option (α × List UInt8)}
    {encode : α → List UInt8} {items : List α}
    (h : ∀ item ∈ items, ∀ rest, read (encode item ++ rest) = some (item, rest))
    (rest : List UInt8) :
    readMany read items.length (items.flatMap encode ++ rest) = some (items, rest) := by
  induction items with
  | nil => rfl
  | cons item items ih =>
    obtain ⟨hitem, hitems⟩ := List.forall_mem_cons.mp h
    rw [List.length_cons, List.flatMap_cons, List.append_assoc, readMany, hitem]
    simp only [Option.bind_eq_bind, Option.bind_some, ih hitems]

/-! ## Inputs -/

/-- A transaction input. -/
structure TxIn where
  outpoint : List UInt8
  script : List UInt8
  sequence : List UInt8
  deriving DecidableEq, Repr

/-- An input whose fields have their sizes. -/
structure TxIn.Fits (input : TxIn) : Prop where
  outpoint_length : input.outpoint.length = 36
  script_lt : input.script.length < 2 ^ 64
  sequence_length : input.sequence.length = 4

/-- The wire form of an input. -/
def TxIn.encode (input : TxIn) : List UInt8 :=
  input.outpoint ++ varint input.script.length ++ input.script ++ input.sequence

/-- An input and what follows it. -/
def readInput (bytes : List UInt8) : Option (TxIn × List UInt8) := do
  let (outpoint, rest) ← readBytes 36 bytes
  let (size, rest) ← readVarint rest
  let (script, rest) ← readBytes size rest
  let (sequence, rest) ← readBytes 4 rest
  some ({ outpoint, script, sequence }, rest)

theorem readInput_encode {input : TxIn} (h : input.Fits) (rest : List UInt8) :
    readInput (input.encode ++ rest) = some (input, rest) := by
  simp only [TxIn.encode, List.append_assoc, readInput, Option.bind_eq_bind,
    readBytes_append h.outpoint_length, Option.bind_some, readVarint_varint h.script_lt,
    readBytes_append rfl, readBytes_append h.sequence_length]

/-! ## Transactions -/

/-- A transaction without witness. -/
structure Tx where
  version : List UInt8
  inputs : List TxIn
  outputs : List TxOut
  lockTime : List UInt8
  deriving DecidableEq, Repr

/-- A transaction whose fields have their sizes. -/
structure Tx.Fits (tx : Tx) : Prop where
  version_length : tx.version.length = 4
  inputs_lt : tx.inputs.length < 2 ^ 64
  inputs_fit : ∀ input ∈ tx.inputs, input.Fits
  outputs_lt : tx.outputs.length < 2 ^ 64
  outputs_fit : ∀ output ∈ tx.outputs, output.Fits
  lockTime_length : tx.lockTime.length = 4

/-- The wire form of a transaction. -/
def Tx.encode (tx : Tx) : List UInt8 :=
  tx.version ++ varint tx.inputs.length ++ tx.inputs.flatMap TxIn.encode ++
    varint tx.outputs.length ++ tx.outputs.flatMap TxOut.encode ++ tx.lockTime

/-- A transaction that ends with the bytes. -/
def readTx (bytes : List UInt8) : Option Tx := do
  let (version, rest) ← readBytes 4 bytes
  let (count, rest) ← readVarint rest
  let (inputs, rest) ← readMany readInput count rest
  let (count, rest) ← readVarint rest
  let (outputs, rest) ← readMany readOutput count rest
  if rest.length = 4 then some { version, inputs, outputs, lockTime := rest } else none

/-- A transaction is read back. -/
theorem readTx_encode {tx : Tx} (h : tx.Fits) : readTx tx.encode = some tx := by
  have hinputs (rest : List UInt8) := readMany_flatMap
    (fun input hinput => readInput_encode (h.inputs_fit input hinput)) rest
  have houtputs (rest : List UInt8) := readMany_flatMap
    (fun output houtput => readOutput_encode (h.outputs_fit output houtput)) rest
  simp only [Tx.encode, List.append_assoc, readTx, Option.bind_eq_bind,
    readBytes_append h.version_length, Option.bind_some, readVarint_varint h.inputs_lt, hinputs,
    readVarint_varint h.outputs_lt, houtputs]
  rw [if_pos h.lockTime_length]

/-- Whatever follows, the first of the outputs is the one that stands there. -/
theorem outputs_of_readTx {version : List UInt8} {input : TxIn} {first : TxOut} {count : Nat}
    {tx : Tx} (hversion : version.length = 4) (hinput : input.Fits) (hcount : count + 1 < 2 ^ 64)
    (hfirst : first.Fits) (rest : List UInt8)
    (h : readTx (version ++ (varint 1 ++ (input.encode ++ (varint (count + 1) ++
      (first.encode ++ rest))))) = some tx) :
    ∃ others, tx.outputs = first :: others := by
  have hone : (1 : Nat) < 2 ^ 64 := by decide
  simp only [readTx, Option.bind_eq_bind, readBytes_append hversion, Option.bind_some,
    readVarint_varint hone, readMany, readInput_encode hinput, readVarint_varint hcount,
    readOutput_encode hfirst] at h
  cases hmany : readMany readOutput count rest with
  | none =>
    rw [hmany] at h
    cases h
  | some read =>
    simp only [hmany, Option.bind_some] at h
    split at h
    · cases h
      exact ⟨read.1, rfl⟩
    · cases h

end Wire
