import Mathlib.Algebra.Group.Int.Defs
import Mathlib.Algebra.Group.Nat.Defs
import Mathlib.Data.Rat.Defs
import Mathlib.Tactic.Common

/-!
# JSON values

The part of jansson's `json_t` the gateway reads: RPC replies
(`datum_jsonrpc.c`), `mining.submit` parameters (`datum_stratum.c`) and the
CHIRP snapshot (`datum_chirp_glue.c`). Strings are kept as bytes, the way the
C code sees them; member names are the literals of the source.
-/

namespace ChirpGateway

/-- A decoded JSON value. Integers are the `json_int_t` jansson keeps, and a
    real is the exact number the text denotes. -/
inductive Json where
  | null
  | bool (value : Bool)
  | integer (value : Int)
  | real (value : Rat)
  | string (value : List UInt8)
  | array (elements : List Json)
  | object (members : List (String × Json))

namespace Json

/-- `json_object_get`: the member of that name, absent on anything but an
    object. -/
def objectGet : Json → String → Option Json
  | .object members, name => members.lookup name
  | _, _ => none

/-- `json_string_value`. -/
def stringValue : Json → Option (List UInt8)
  | .string text => some text
  | _ => none

/-- `json_integer_value`, zero on anything but an integer. -/
def integerValue : Json → Int
  | .integer value => value
  | _ => 0

/-- `json_number_value`, zero on anything but a number. -/
def numberValue : Json → Rat
  | .integer value => value
  | .real value => value
  | _ => 0

/-- The elements, where `json_is_array` holds. -/
def arrayValue : Json → Option (List Json)
  | .array elements => some elements
  | _ => none

/-- `json_string_value(json_object_get(value, name))`. -/
def stringAt (value : Json) (name : String) : Option (List UInt8) :=
  (value.objectGet name).bind stringValue

/-- `json_is_object`. -/
def isObject : Json → Bool
  | .object _ => true
  | _ => false

/-- `json_is_number`. -/
def isNumber : Json → Bool
  | .integer _ => true
  | .real _ => true
  | _ => false

/-- What `json_object_foreach` goes through, nothing on anything but an object. -/
def members : Json → List (String × Json)
  | .object members => members
  | _ => []

/-- `json_integer_value(json_object_get(value, name))`. -/
def integerAt (value : Json) (name : String) : Int :=
  ((value.objectGet name).map integerValue).getD 0

/-- `json_number_value(json_object_get(value, name))`. -/
def numberAt (value : Json) (name : String) : Rat :=
  ((value.objectGet name).map numberValue).getD 0

/-- The elements of `json_object_get(value, name)`, where that is an array. -/
def arrayAt (value : Json) (name : String) : Option (List Json) :=
  (value.objectGet name).bind arrayValue

/-- `json_is_true(json_object_get(value, name))`. -/
def isTrueAt (value : Json) (name : String) : Bool :=
  match value.objectGet name with
  | some (.bool true) => true
  | _ => false

/-- The members with one of them replaced, or added at the end. -/
def setMember (name : String) (member : Json) : List (String × Json) → List (String × Json)
  | [] => [(name, member)]
  | (key, old) :: rest =>
    if key = name then (key, member) :: rest else (key, old) :: setMember name member rest

/-- `json_object_set_new`, which does nothing to anything but an object. -/
def objectSet : Json → String → Json → Json
  | .object members, name, member => .object (setMember name member members)
  | value, _, _ => value

/-- `json_integer((json_int_t)value)` of an unsigned 64-bit value. -/
def ofUInt64 (value : Nat) : Json :=
  .integer ((value : Int).bmod (2 ^ 64))

theorem lookup_setMember_self (name : String) (member : Json) (members : List (String × Json)) :
    (setMember name member members).lookup name = some member := by
  induction members with
  | nil => simp [setMember]
  | cons entry rest ih =>
    obtain ⟨key, old⟩ := entry
    unfold setMember
    by_cases hkey : key = name
    · simp [hkey]
    · have hne : (name == key) = false := by simpa using fun h => hkey h.symm
      rw [if_neg hkey, List.lookup_cons, hne]
      exact ih

theorem lookup_setMember_of_ne {name other : String} (member : Json)
    (members : List (String × Json)) (hother : other ≠ name) :
    (setMember name member members).lookup other = members.lookup other := by
  induction members with
  | nil =>
    have hne : (other == name) = false := by simpa using hother
    simp [setMember, List.lookup_cons, hne]
  | cons entry rest ih =>
    obtain ⟨key, old⟩ := entry
    unfold setMember
    by_cases hkey : key = name
    · subst hkey
      have hne : (other == key) = false := by simpa using hother
      rw [if_pos rfl, List.lookup_cons, List.lookup_cons, hne]
    · rw [if_neg hkey, List.lookup_cons, List.lookup_cons, ih]

/-- A member just set is the one found, on an object. -/
theorem objectGet_objectSet_self {value : Json} (hobj : (∃ members, value = .object members))
    (name : String) (member : Json) :
    (value.objectSet name member).objectGet name = some member := by
  obtain ⟨members, rfl⟩ := hobj
  exact lookup_setMember_self name member members

/-- Setting a member leaves the others. -/
@[simp] theorem objectGet_objectSet_of_ne {name other : String} (value member : Json)
    (hother : other ≠ name) :
    (value.objectSet name member).objectGet other = value.objectGet other := by
  cases value with
  | object members => exact lookup_setMember_of_ne member members hother
  | _ => rfl

theorem objectSet_isObject {value : Json} (hobj : ∃ members, value = .object members)
    (name : String) (member : Json) :
    ∃ members, value.objectSet name member = .object members := by
  obtain ⟨members, rfl⟩ := hobj
  exact ⟨_, rfl⟩

/-- Only an object has members. -/
theorem isObject_of_objectGet {value member : Json} {name : String}
    (h : value.objectGet name = some member) : ∃ members, value = .object members := by
  cases value with
  | object members => exact ⟨members, rfl⟩
  | _ => cases h

/-- `json_is_null` on a value that is there. -/
def isNull : Json → Bool
  | .null => true
  | _ => false

@[simp] theorem isNull_iff (value : Json) : value.isNull = true ↔ value = .null := by
  cases value <;> simp [isNull]

end Json

end ChirpGateway
