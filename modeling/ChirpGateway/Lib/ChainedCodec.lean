import Mathlib.Logic.Function.Iterate
import Mathlib.Data.List.Basic

/-!
# Messages in a row under a rolling key

Every message is written under a key, and the key moves on once a message,
whatever the message is. A reader that starts with the same key reads them back
in order.
-/

namespace ChainedCodec

universe u v

/-- How one message is written and read under a key, and how the key moves on. -/
structure Codec (κ : Type u) (μ : Type v) where
  encode : κ → μ → List UInt8
  decode : κ → List UInt8 → Option (μ × List UInt8)
  next : κ → κ

namespace Codec

variable {κ : Type u} {μ : Type v} (codec : Codec κ μ)

/-- The message is read back under any key, whatever follows it. -/
def ReadsBack (message : μ) : Prop :=
  ∀ key rest, codec.decode key (codec.encode key message ++ rest) = some (message, rest)

/-- The messages in a row. -/
def encodeAll : κ → List μ → List UInt8
  | _, [] => []
  | key, message :: messages =>
    codec.encode key message ++ encodeAll (codec.next key) messages

/-- So many messages, and what follows them. -/
def decodeAll : (count : Nat) → κ → List UInt8 → Option (List μ × List UInt8)
  | 0, _, bytes => some ([], bytes)
  | count + 1, key, bytes => do
    let (message, rest) ← codec.decode key bytes
    let (messages, rest) ← decodeAll count (codec.next key) rest
    some (message :: messages, rest)

variable {codec}

theorem encodeAll_append (key : κ) (messages others : List μ) :
    codec.encodeAll key (messages ++ others) =
      codec.encodeAll key messages ++
        codec.encodeAll (codec.next^[messages.length] key) others := by
  induction messages generalizing key with
  | nil => rfl
  | cons message messages ih =>
    rw [List.cons_append, encodeAll, encodeAll, ih, List.length_cons, Function.iterate_succ_apply,
      List.append_assoc]

theorem encodeAll_concat (key : κ) (messages : List μ) (message : μ) :
    codec.encodeAll key (messages ++ [message]) =
      codec.encodeAll key messages ++
        codec.encode (codec.next^[messages.length] key) message := by
  rw [encodeAll_append, encodeAll, encodeAll, List.append_nil]

/-- The reader has them all, in order. -/
theorem decodeAll_encodeAll (key : κ) {messages : List μ}
    (h : ∀ message ∈ messages, codec.ReadsBack message) (rest : List UInt8) :
    codec.decodeAll messages.length key (codec.encodeAll key messages ++ rest) =
      some (messages, rest) := by
  induction messages generalizing key with
  | nil => rfl
  | cons message messages ih =>
    obtain ⟨hmessage, hmessages⟩ := List.forall_mem_cons.mp h
    rw [List.length_cons, encodeAll, List.append_assoc, decodeAll, hmessage]
    simp only [Option.bind_eq_bind, Option.bind_some, ih (codec.next key) hmessages]

end Codec

end ChainedCodec
