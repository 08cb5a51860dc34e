import Mathlib.Data.List.Basic

/-!
# Byte strings

ASCII literals, decimal numerals, texts read symbol by symbol and the check for
valid UTF-8, on lists of bytes.
-/

namespace Bytes

/-- The bytes of an ASCII literal. -/
def ascii (text : String) : List UInt8 :=
  text.toList.map fun c => UInt8.ofNat c.toNat

/-- The result of a hash of 256 bits. -/
structure Hash32 where
  bytes : List UInt8
  length_eq : bytes.length = 32
  deriving DecidableEq

theorem length_blank : (List.replicate 32 (0 : UInt8)).length = 32 := List.length_replicate

/-! ## Decimal numerals -/

/-- The decimal numeral of a number, without leading zeros. -/
def decimal (n : Nat) : List UInt8 :=
  (Nat.toDigits 10 n).map fun c => UInt8.ofNat c.toNat

/-- `isspace` in the C locale. -/
def isSpace (ch : UInt8) : Bool := ch = 32 || (9 ≤ ch && ch ≤ 13)

/-- Whether a byte is an ASCII digit. -/
def isDigit (byte : UInt8) : Bool :=
  48 ≤ byte && byte ≤ 57

/-- The number an all-digit text denotes. -/
def parseDecimal (text : List UInt8) : Option Nat :=
  if text.isEmpty || !text.all isDigit then
    none
  else
    some (text.foldl (fun n byte => 10 * n + (byte.toNat - 48)) 0)

private theorem toNat_ofNat_digit {c : Char} (hc : c.isDigit = true) :
    (UInt8.ofNat c.toNat).toNat = c.toNat ∧ 48 ≤ c.toNat ∧ c.toNat ≤ 57 := by
  have hbounds : 48 ≤ c.toNat ∧ c.toNat ≤ 57 := by
    simp only [Char.isDigit, Bool.and_eq_true, decide_eq_true_eq, ge_iff_le,
      UInt32.le_iff_toNat_le] at hc
    exact hc
  refine ⟨?_, hbounds⟩
  rw [UInt8.toNat_ofNat_of_lt']
  exact Nat.lt_of_le_of_lt hbounds.2 (by decide)

theorem parseDecimal_decimal (n : Nat) : parseDecimal (decimal n) = some n := by
  have hdigit : ∀ c ∈ Nat.toDigits 10 n, c.isDigit = true :=
    fun c hc => Nat.isDigit_of_mem_toDigits (by decide) (by decide) hc
  have hne : (decimal n).isEmpty = false := by
    have := Nat.length_toDigits_pos (b := 10) (n := n)
    cases h : Nat.toDigits 10 n with
    | nil => simp [h] at this
    | cons c cs => simp [decimal, h]
  have hall : (decimal n).all isDigit = true := by
    simp only [decimal, List.all_map, List.all_eq_true, Function.comp_apply]
    intro c hc
    obtain ⟨heq, hlo, hhi⟩ := toNat_ofNat_digit (hdigit c hc)
    simp only [isDigit, Bool.and_eq_true, decide_eq_true_eq, UInt8.le_iff_toNat_le, heq]
    exact ⟨hlo, hhi⟩
  have hfold : ∀ (cs : List Char) (init : Nat), (∀ c ∈ cs, c.isDigit = true) →
      (cs.map fun c => UInt8.ofNat c.toNat).foldl (fun n byte => 10 * n + (byte.toNat - 48)) init =
        Nat.ofDigitChars 10 cs init := by
    intro cs
    induction cs with
    | nil =>
      intro init _
      rw [Nat.ofDigitChars_nil]
      rfl
    | cons c cs ih =>
      intro init hcs
      obtain ⟨heq, -, -⟩ := toNat_ofNat_digit (hcs c List.mem_cons_self)
      rw [List.map_cons, List.foldl_cons, Nat.ofDigitChars_cons, heq]
      exact ih _ fun d hd => hcs d (List.mem_cons_of_mem _ hd)
  simp only [parseDecimal, hne, hall, Bool.not_true, Bool.or_self, Bool.false_eq_true, if_false]
  rw [decimal, hfold _ _ hdigit, Nat.ofDigitChars_ten_toDigits]

/-! ## Symbol by symbol -/

theorem mapM_eq_some_iff {α β : Type} {f : α → Option β} {xs : List α} {ys : List β} :
    xs.mapM f = some ys ↔ xs.map f = ys.map some := by
  induction xs generalizing ys with
  | nil => cases ys <;> simp
  | cons x xs ih =>
    rw [List.mapM_cons]
    constructor
    · intro h
      simp only [Option.bind_eq_bind, Option.bind_eq_some_iff, Option.pure_def,
        Option.some.injEq] at h
      obtain ⟨y, hy, rest, hrest, rfl⟩ := h
      rw [List.map_cons, List.map_cons, hy, ih.mp hrest]
    · intro h
      cases ys with
      | nil => cases h
      | cons y ys =>
        obtain ⟨hy, hrest⟩ := List.cons.inj h
        simp [hy, ih.mpr hrest]

theorem length_of_mapM_eq_some {α β : Type} {f : α → Option β} {xs : List α} {ys : List β}
    (h : xs.mapM f = some ys) : ys.length = xs.length := by
  have hlength := congrArg List.length (mapM_eq_some_iff.mp h)
  rw [List.length_map, List.length_map] at hlength
  exact hlength.symm

/-- The values of a text that is taken apart at a character. -/
theorem exists_values_of_mapM {α β : Type} {f : α → Option β} {front back : List α} {c : α}
    {values : List β} (h : (front ++ c :: back).mapM f = some values) :
    ∃ vs v ws, values = vs ++ v :: ws ∧ front.mapM f = some vs ∧ f c = some v ∧
      back.mapM f = some ws := by
  have hmap := mapM_eq_some_iff.mp h
  rw [List.map_append, List.map_cons] at hmap
  obtain ⟨vs, rest, rfl, hfront, hrest⟩ := List.map_eq_append_iff.mp hmap.symm
  obtain ⟨v, ws, rfl, hv, hback⟩ := List.map_eq_cons_iff.mp hrest
  exact ⟨vs, v, ws, rfl, mapM_eq_some_iff.mpr hfront.symm, hv.symm,
    mapM_eq_some_iff.mpr hback.symm⟩

/-! ## UTF-8 -/

/-- A continuation byte. -/
def isContinuation (byte : UInt8) : Bool :=
  0x80 ≤ byte && byte ≤ 0xbf

/-- Well-formed UTF-8: no overlong form, no surrogate, nothing beyond
    U+10FFFF. -/
def validUtf8 : List UInt8 → Bool
  | [] => true
  | a :: rest =>
    if a < 0x80 then
      validUtf8 rest
    else
      match rest with
      | [] => false
      | b :: rest =>
        if 0xc2 ≤ a && a ≤ 0xdf then
          isContinuation b && validUtf8 rest
        else
          match rest with
          | [] => false
          | c :: rest =>
            if 0xe0 ≤ a && a ≤ 0xef then
              isContinuation b && isContinuation c && (a ≠ 0xe0 || 0xa0 ≤ b) &&
                (a ≠ 0xed || b < 0xa0) && validUtf8 rest
            else
              match rest with
              | [] => false
              | d :: rest =>
                0xf0 ≤ a && a ≤ 0xf4 && isContinuation b && isContinuation c &&
                  isContinuation d && (a ≠ 0xf0 || 0x90 ≤ b) && (a ≠ 0xf4 || b < 0x90) &&
                  validUtf8 rest

theorem validUtf8_of_ascii {text : List UInt8} (htext : ∀ byte ∈ text, byte < 0x80) :
    validUtf8 text = true := by
  induction text with
  | nil => rfl
  | cons a rest ih =>
    unfold validUtf8
    rw [if_pos (htext a List.mem_cons_self)]
    exact ih fun byte hbyte => htext byte (List.mem_cons_of_mem _ hbyte)

theorem validUtf8_decimal (n : Nat) : validUtf8 (decimal n) = true := by
  apply validUtf8_of_ascii
  intro byte hbyte
  obtain ⟨c, hc, rfl⟩ := List.mem_map.mp hbyte
  obtain ⟨heq, -, hhi⟩ := toNat_ofNat_digit
    (Nat.isDigit_of_mem_toDigits (by decide) (by decide) hc)
  rw [UInt8.lt_iff_toNat_lt, heq]
  exact Nat.lt_of_le_of_lt hhi (by decide)

end Bytes
