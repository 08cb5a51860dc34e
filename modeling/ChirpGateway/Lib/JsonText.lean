import ChirpGateway.Lib.Bytes
import ChirpGateway.Lib.Hex

/-!
# JSON texts

The grammar of JSON without white space, on bytes, and the lines that carry one
value each.
-/

namespace JsonText

open Bytes

/-- A character that stands for itself in a string. -/
def isPlain (ch : UInt8) : Bool := 0x20 ≤ ch && ch ≠ 0x22 && ch ≠ 0x5c

def isHexDigit (ch : UInt8) : Bool :=
  isDigit ch || (0x41 ≤ ch && ch ≤ 0x46) || (0x61 ≤ ch && ch ≤ 0x66)

/-- What stands between the quotes of a string. -/
inductive IsBody : List UInt8 → Prop where
  | nil : IsBody []
  | plain {ch : UInt8} {rest : List UInt8} : isPlain ch = true → IsBody rest →
    IsBody (ch :: rest)
  | escape {ch : UInt8} {rest : List UInt8} :
    ch ∈ ascii "\"\\/bfnrt" → IsBody rest → IsBody (0x5c :: ch :: rest)
  | unicode {digits rest : List UInt8} : digits.length = 4 → digits.all isHexDigit = true →
    IsBody rest → IsBody (0x5c :: 0x75 :: (digits ++ rest))

def quoted (body : List UInt8) : List UInt8 := 0x22 :: (body ++ [0x22])

/-- The items with a comma between them. -/
def commas : List (List UInt8) → List UInt8
  | [] => []
  | [item] => item
  | item :: next :: items => item ++ 0x2c :: commas (next :: items)

def arrayText (items : List (List UInt8)) : List UInt8 := 0x5b :: (commas items ++ [0x5d])

def memberText (member : List UInt8 × List UInt8) : List UInt8 :=
  quoted member.1 ++ 0x3a :: member.2

def objectText (members : List (List UInt8 × List UInt8)) : List UInt8 :=
  0x7b :: (commas (members.map memberText) ++ [0x7d])

/-- The text of one value; of the numbers only those without a fraction. -/
inductive IsValue : List UInt8 → Prop where
  | null : IsValue (ascii "null")
  | true : IsValue (ascii "true")
  | false : IsValue (ascii "false")
  | natural (n : Nat) : IsValue (decimal n)
  | negative (n : Nat) : IsValue (0x2d :: decimal n)
  | string {body : List UInt8} : IsBody body → IsValue (quoted body)
  | array {items : List (List UInt8)} : (∀ item ∈ items, IsValue item) →
    IsValue (arrayText items)
  | object {members : List (List UInt8 × List UInt8)} :
    (∀ member ∈ members, IsBody member.1) →
    (∀ member ∈ members, IsValue member.2) → IsValue (objectText members)

/-- One value and a line feed. -/
def IsLine (text : List UInt8) : Prop := ∃ value, IsValue value ∧ text = value ++ [0x0a]

/-! ## Strings of plain characters -/

theorem IsBody.of_plain {body : List UInt8} (h : body.all isPlain = Bool.true) : IsBody body := by
  induction body with
  | nil => exact .nil
  | cons ch body ih =>
    rw [List.all_cons, Bool.and_eq_true] at h
    exact .plain h.1 (ih h.2)

theorem IsValue.plainString {body : List UInt8} (h : body.all isPlain = Bool.true) :
    IsValue (quoted body) :=
  .string (.of_plain h)

theorem isPlain_digit {n : Nat} (hn : n < 16) : isPlain (Hex.digit n) = Bool.true := by
  have hall : ∀ m : Fin 16, isPlain (Hex.digit m) = Bool.true := by decide
  exact hall ⟨n, hn⟩

theorem all_isPlain_encodeByte (byte : UInt8) :
    (Hex.encodeByte byte).all isPlain = Bool.true := by
  have hbyte := byte.toNat_lt
  simp only [Hex.encodeByte, List.all_cons, List.all_nil, Bool.and_true, Bool.and_eq_true]
  exact ⟨isPlain_digit (by omega), isPlain_digit (by omega)⟩

theorem all_isPlain_encode (bytes : List UInt8) : (Hex.encode bytes).all isPlain = Bool.true := by
  induction bytes with
  | nil => rfl
  | cons byte bytes ih =>
    rw [Hex.encode, List.flatMap_cons, List.all_append, all_isPlain_encodeByte, Bool.true_and]
    exact ih

theorem IsValue.plainObject {members : List (List UInt8 × List UInt8)}
    (hnames : (members.map Prod.fst).all (fun name => name.all isPlain) = Bool.true)
    (hvalues : ∀ member ∈ members, IsValue member.2) : IsValue (objectText members) := by
  refine .object (fun member hmember => .of_plain ?_) hvalues
  exact List.all_eq_true.mp hnames member.1 (List.mem_map_of_mem hmember)

/-- An object whose names are plain, and a line feed. -/
theorem isLine_object {members : List (List UInt8 × List UInt8)}
    (hnames : (members.map Prod.fst).all (fun name => name.all isPlain) = Bool.true)
    (hvalues : ∀ member ∈ members, IsValue member.2) : IsLine (objectText members ++ [0x0a]) :=
  ⟨_, .plainObject hnames hvalues, rfl⟩

end JsonText
