import ChirpGateway.Address.Base58
import ChirpGateway.Address.SegwitCode
import Mathlib.Data.List.GetD

/-!
# Base58 text

`b58enc` (`thirdparty_base58.c:210-254`). The digits are kept in a buffer whose size is taken
from the number of bytes, and only the places that can be filled are gone through. The buffer
is large enough for bytes of any number, and no place that counts is left out.
-/

namespace ChirpGateway

open Bytes

/-- One more byte in the digits, the lowest first: `count` places are gone through at least,
    and as many as the carry needs. With it the number of places that were passed, which the
    next byte starts from; behind the last place there is none. -/
def b58Carry : (digits : List Nat) → (count carry : Nat) → List Nat × Nat
  | [], _, _ => ([], 0)
  | [digit], count, carry =>
    if 0 < count || carry ≠ 0 then ([(carry + 256 * digit) % 58], 0) else ([digit], 0)
  | digit :: digits, count, carry =>
    if 0 < count || carry ≠ 0 then
      let carry := carry + 256 * digit
      let (digits, passed) := b58Carry digits (count - 1) (carry / 58)
      (carry % 58 :: digits, passed + 1)
    else
      (digit :: digits, 0)

/-- The digits of the bytes, in a buffer of the size. -/
def b58Buffer (size : Nat) (bytes : List UInt8) : List Nat × Nat :=
  bytes.foldl (fun buf byte => b58Carry buf.1 buf.2 byte.toNat) (List.replicate size 0, 0)

/-- `b58enc` into a text of `b58sz` bytes with its terminator. -/
def b58enc (b58sz : Nat) (data : List UInt8) : Option (List UInt8) :=
  let zcount := (data.takeWhile (· = 0)).length
  let rest := data.drop zcount
  let size := rest.length * 138 / 100 + 1
  let digits := (b58Buffer size rest).1.reverse.dropWhile (· = 0)
  if b58sz ≤ zcount + digits.length then none
  else some (List.replicate zcount 49 ++ digits.map fun digit => b58Digits.getD digit 0)

/-! ## One byte -/

/-- The places behind the first ones hold nothing. -/
def EmptyFrom (digits : List Nat) (count : Nat) : Prop := ∀ k, count ≤ k → digits.getD k 0 = 0

theorem ofDigits_of_emptyFrom_zero {digits : List Nat} (h : EmptyFrom digits 0) :
    Nat.ofDigits 58 digits = 0 := by
  induction digits with
  | nil => rfl
  | cons digit digits ih =>
    have hdigit : digit = 0 := h 0 (Nat.le_refl 0)
    have hrest : EmptyFrom digits 0 := fun k _ => h (k + 1) (Nat.zero_le _)
    rw [Nat.ofDigits_cons, hdigit, ih hrest]

/-- What a byte does to the digits, where the number still fits. -/
structure Carried (digits : List Nat) (carry : Nat) (done : List Nat × Nat) : Prop where
  size : done.1.length = digits.length
  small : ∀ digit ∈ done.1, digit < 58
  value : Nat.ofDigits 58 done.1 = 256 * Nat.ofDigits 58 digits + carry
  passed : ∀ k, done.2 ≤ k → k + 1 < digits.length → done.1.getD k 0 = 0

/-- Nothing is to be done where no place is filled and nothing is carried. -/
theorem Carried.stop {digits : List Nat} {count carry : Nat}
    (hdigits : ∀ digit ∈ digits, digit < 58)
    (hempty : EmptyFrom digits count)
    (hnone : ¬(decide (0 < count) || decide (carry ≠ 0)) = true) :
    Carried digits carry (digits, 0) := by
  simp only [Bool.or_eq_true, decide_eq_true_eq, not_or, not_not] at hnone
  have hzero : count = 0 := by omega
  subst hzero
  refine ⟨rfl, hdigits, ?_, fun k hk _ => hempty k hk⟩
  rw [ofDigits_of_emptyFrom_zero hempty, hnone.2]

theorem b58Carry_spec {digits : List Nat} {count carry : Nat}
    (hdigits : ∀ digit ∈ digits, digit < 58) (hempty : EmptyFrom digits count)
    (hfits : 256 * Nat.ofDigits 58 digits + carry < 58 ^ digits.length) :
    Carried digits carry (b58Carry digits count carry) := by
  induction digits generalizing count carry with
  | nil =>
    refine ⟨rfl, hdigits, ?_, fun k _ _ => rfl⟩
    simp only [List.length_nil, pow_zero] at hfits
    simp only [b58Carry]
    omega
  | cons digit digits ih =>
    rw [Nat.ofDigits_cons] at hfits
    cases digits with
    | nil =>
      simp only [b58Carry]
      split
      · simp only [Nat.ofDigits_nil, List.length_singleton] at hfits
        refine ⟨rfl, ?_, ?_, fun k _ hk => absurd hk (by simp)⟩
        · intro d hd
          rw [List.mem_singleton.mp hd]
          exact Nat.mod_lt _ (by decide)
        · simp only [Nat.ofDigits_cons, Nat.ofDigits_nil]
          omega
      · next hnone => exact .stop hdigits hempty hnone
    | cons next digits =>
      have hwhole : Nat.ofDigits 58 (digit :: next :: digits) =
          digit + 58 * Nat.ofDigits 58 (next :: digits) := Nat.ofDigits_cons
      have hpow : 58 ^ (digit :: next :: digits).length = 58 * 58 ^ (next :: digits).length := by
        rw [List.length_cons, pow_succ, Nat.mul_comm]
      rw [hpow] at hfits
      simp only [b58Carry]
      split
      · have hrest : Carried (next :: digits) ((carry + 256 * digit) / 58)
            (b58Carry (next :: digits) (count - 1) ((carry + 256 * digit) / 58)) := by
          refine ih (fun d hd => hdigits d (List.mem_cons_of_mem _ hd)) ?_ ?_
          · intro k hk
            exact hempty (k + 1) (by omega)
          · omega
        refine ⟨?_, ?_, ?_, ?_⟩
        · simp [hrest.size]
        · intro d hd
          rcases List.mem_cons.mp hd with rfl | hmem
          · exact Nat.mod_lt _ (by decide)
          · exact hrest.small d hmem
        · rw [hwhole, Nat.ofDigits_cons, hrest.value]
          omega
        · intro k hk hlt
          cases k with
          | zero => exact absurd hk (by simp)
          | succ k =>
            exact hrest.passed k (by simpa using hk) (by simpa using hlt)
      · next hnone => exact .stop hdigits hempty hnone

/-! ## All bytes -/

/-- Places that hold the numbers of so many bytes: 138 for a hundred. -/
theorem pow_256_le {n k : Nat} (h : 138 * n ≤ 100 * k) : 256 ^ n ≤ 58 ^ k := by
  have hhundred : 256 ^ 100 ≤ 58 ^ 138 := by decide +kernel
  refine (Nat.pow_le_pow_iff_left (n := 100) (by decide)).mp ?_
  calc (256 ^ n) ^ 100 = (256 ^ 100) ^ n := by rw [← pow_mul, ← pow_mul, Nat.mul_comm]
    _ ≤ (58 ^ 138) ^ n := Nat.pow_le_pow_left hhundred n
    _ = 58 ^ (138 * n) := (pow_mul _ _ _).symm
    _ ≤ 58 ^ (100 * k) := Nat.pow_le_pow_right (by decide) h
    _ = (58 ^ k) ^ 100 := by rw [← pow_mul, Nat.mul_comm]

theorem byteValue_lt (bytes : List UInt8) : byteValue bytes < 256 ^ bytes.length := by
  rw [← List.length_map (f := UInt8.toNat)]
  refine BigEndian.value_lt (by decide) fun d hd => ?_
  obtain ⟨byte, -, rfl⟩ := List.mem_map.mp hd
  exact byte.toNat_lt

theorem byteValue_concat (bytes : List UInt8) (byte : UInt8) :
    byteValue (bytes ++ [byte]) = byteValue bytes * 256 + byte.toNat := by
  rw [byteValue, List.map_append, List.map_singleton, BigEndian.value_concat]
  rfl

/-- A number that needs no last place has nothing there. -/
theorem getLast_eq_zero {digits : List Nat} {size : Nat} (hsize : digits.length = size + 1)
    (hsmall : Nat.ofDigits 58 digits < 58 ^ size) : digits.getD size 0 = 0 := by
  obtain ⟨front, last, rfl⟩ : ∃ front last, digits = front ++ [last] :=
    ⟨_, _, (List.dropLast_concat_getLast (List.ne_nil_of_length_eq_add_one hsize)).symm⟩
  have hfront : front.length = size := by simpa using hsize
  rw [Nat.ofDigits_append, Nat.ofDigits_singleton, hfront] at hsmall
  have hlast : last = 0 := by
    by_contra hne
    have hle := Nat.le_mul_of_pos_right (58 ^ size) (Nat.pos_of_ne_zero hne)
    omega
  simp [← hfront, hlast]

/-- The buffer while the bytes are gone through: it holds their number, and the places that
    are not gone through hold nothing, but for the last one. -/
structure Buffered (size : Nat) (bytes : List UInt8) (buf : List Nat × Nat) : Prop where
  length : buf.1.length = size
  small : ∀ digit ∈ buf.1, digit < 58
  value : Nat.ofDigits 58 buf.1 = byteValue bytes
  passed : ∀ k, buf.2 ≤ k → k + 1 < size → buf.1.getD k 0 = 0

/-- As many places as the code takes are enough. -/
theorem buffered_b58Buffer {n : Nat} {bytes : List UInt8} (hlength : bytes.length ≤ n) :
    Buffered (n * 138 / 100 + 1) bytes (b58Buffer (n * 138 / 100 + 1) bytes) := by
  induction bytes using List.reverseRecOn with
  | nil =>
    have hempty : EmptyFrom (List.replicate (n * 138 / 100 + 1) 0) 0 := by
      intro k _
      rw [List.getD_eq_getElem?_getD, List.getElem?_getD_replicate_default_eq]
    refine ⟨List.length_replicate, ?_, ofDigits_of_emptyFrom_zero hempty, ?_⟩
    · intro digit hdigit
      rw [List.eq_of_mem_replicate hdigit]
      decide
    · exact fun k _ _ => hempty k (Nat.zero_le k)
  | append_singleton front byte ih =>
    rw [List.length_append, List.length_singleton] at hlength
    have hbuf := ih (by omega)
    have hstep : b58Buffer (n * 138 / 100 + 1) (front ++ [byte]) =
        b58Carry (b58Buffer (n * 138 / 100 + 1) front).1 (b58Buffer (n * 138 / 100 + 1) front).2
          byte.toNat := by
      simp [b58Buffer]
    rw [hstep]
    generalize b58Buffer (n * 138 / 100 + 1) front = buf at hbuf
    have hfront := byteValue_lt front
    have hempty : EmptyFrom buf.1 buf.2 := by
      intro k hk
      rcases Nat.lt_trichotomy (k + 1) (n * 138 / 100 + 1) with hlt | heq | hgt
      · exact hbuf.passed k hk hlt
      · -- The last place is needed by the last byte only.
        rw [show k = n * 138 / 100 by omega]
        refine getLast_eq_zero hbuf.length (hbuf.value ▸ Nat.lt_of_lt_of_le hfront ?_)
        exact pow_256_le (by omega)
      · rw [List.getD_eq_default _ _ (by rw [hbuf.length]; omega)]
    have hfits : 256 * Nat.ofDigits 58 buf.1 + byte.toNat < 58 ^ buf.1.length := by
      have hbyte := byte.toNat_lt
      have hmore : 256 ^ (front.length + 1) ≤ 58 ^ (n * 138 / 100 + 1) := pow_256_le (by omega)
      rw [pow_succ] at hmore
      rw [hbuf.value, hbuf.length]
      omega
    have hcarried := b58Carry_spec hbuf.small hempty hfits
    refine ⟨hcarried.size.trans hbuf.length, hcarried.small, ?_, ?_⟩
    · rw [hcarried.value, hbuf.value, byteValue_concat, Nat.mul_comm]
    · rw [← hbuf.length]
      exact hcarried.passed

/-! ## The text -/

/-- `b58digits_ordered[digit]`. -/
def b58Char (digit : Nat) : UInt8 := b58Digits.getD digit 0

theorem b58DigitsMap_b58Char : ∀ digit < 58, b58DigitsMap (b58Char digit) = some digit := by
  decide +kernel

theorem b58Char_of_b58DigitsMap {ch : UInt8} {digit : Nat} (h : b58DigitsMap ch = some digit) :
    b58Char digit = ch := by
  obtain ⟨hdigit, hget, -⟩ := List.idxOf?_eq_some_iff.mp h
  rw [b58Char, List.getD_eq_getElem _ _ hdigit, hget]

/-- The text of digits is read as the number they stand for. -/
theorem b58Value_map {digits : List Nat} (hdigits : ∀ d ∈ digits, d < 58) (n : Nat)
    (hfits : n * 58 ^ digits.length + BigEndian.value 58 digits < 2 ^ 200) :
    b58Value n (digits.map b58Char) =
      some (n * 58 ^ digits.length + BigEndian.value 58 digits) := by
  induction digits generalizing n with
  | nil => simp [b58Value]
  | cons digit digits ih =>
    have hshift : n * 58 ^ (digit :: digits).length + BigEndian.value 58 (digit :: digits) =
        (n * 58 + digit) * 58 ^ digits.length + BigEndian.value 58 digits := by
      rw [BigEndian.value_cons, List.length_cons]
      ring
    rw [hshift] at hfits ⊢
    have hone : n * 58 + digit < 2 ^ 200 := by
      have hpos : 0 < 58 ^ digits.length := Nat.pow_pos (by decide)
      have hle := Nat.le_mul_of_pos_right (n * 58 + digit) hpos
      omega
    rw [List.map_cons, b58Value, b58DigitsMap_b58Char digit (hdigits digit List.mem_cons_self)]
    simp only [if_pos hone]
    exact ih (fun d hd => hdigits d (List.mem_cons_of_mem _ hd)) _ hfits

/-- A text that is read is one of digits. -/
theorem exists_digits_of_b58Value {text : List UInt8} {n m : Nat} (h : b58Value n text = some m) :
    ∃ digits, text = digits.map b58Char ∧ (∀ d ∈ digits, d < 58) ∧
      m = n * 58 ^ digits.length + BigEndian.value 58 digits := by
  induction text generalizing n with
  | nil =>
    cases h
    exact ⟨[], rfl, by simp, by simp⟩
  | cons ch text ih =>
    obtain ⟨digit, hdigit, -, hrest⟩ := b58Value_cons h
    obtain ⟨digits, rfl, hall, rfl⟩ := ih hrest
    refine ⟨digit :: digits, ?_, ?_, ?_⟩
    · rw [List.map_cons, b58Char_of_b58DigitsMap hdigit]
    · exact List.forall_mem_cons.mpr ⟨b58DigitsMap_lt hdigit, hall⟩
    · rw [BigEndian.value_cons, List.length_cons]
      ring

theorem byteValue_drop_zeros (data : List UInt8) :
    byteValue (data.dropWhile (· = 0)) = byteValue data := by
  have hzero (byte : UInt8) : (byte.toNat = 0) = (byte = 0) := by
    rw [← UInt8.toNat_inj]
    rfl
  rw [byteValue, byteValue, ← BigEndian.value_dropWhile_zero (data.map UInt8.toNat),
    List.dropWhile_map]
  simp only [Function.comp_def, hzero]

/-- What `b58enc` writes: a one for each leading zero, and the digits of the number. -/
theorem b58enc_spec (data : List UInt8) : ∃ digits, (∀ d ∈ digits, d < 58) ∧
    digits.head? ≠ some 0 ∧ BigEndian.value 58 digits = byteValue data ∧
    digits.length ≤ data.length * 138 / 100 + 1 ∧
    ∀ b58sz, b58enc b58sz data =
      if b58sz ≤ (data.takeWhile (· = 0)).length + digits.length then none
      else some ((List.replicate (data.takeWhile (· = 0)).length 0 ++ digits).map b58Char) := by
  have hrest : data.drop (data.takeWhile (· = 0)).length = data.dropWhile (· = 0) := by
    have hsplit := List.takeWhile_append_dropWhile (p := (· = 0)) (l := data)
    calc data.drop (data.takeWhile (· = 0)).length
        = (data.takeWhile (· = 0) ++ data.dropWhile (· = 0)).drop
            (data.takeWhile (· = 0)).length := by rw [hsplit]
      _ = data.dropWhile (· = 0) := List.drop_left
  have hbuf := buffered_b58Buffer (Nat.le_refl (data.dropWhile (· = 0)).length)
  generalize hbuffer : b58Buffer ((data.dropWhile (· = 0)).length * 138 / 100 + 1)
    (data.dropWhile (· = 0)) = buf at hbuf
  have hdigits : ∀ d ∈ buf.1.reverse.dropWhile (· = 0), d < 58 := by
    intro d hd
    exact hbuf.small d (List.mem_reverse.mp ((List.dropWhile_sublist _).mem hd))
  refine ⟨buf.1.reverse.dropWhile (· = 0), hdigits, ?_, ?_, ?_, fun b58sz => ?_⟩
  · intro hhead
    have hnot := List.head?_dropWhile_not (· = 0) buf.1.reverse
    rw [hhead] at hnot
    simp at hnot
  · rw [← byteValue_drop_zeros, ← hbuf.value, BigEndian.value_dropWhile_zero, BigEndian.value,
      List.reverse_reverse]
  · have hle := (List.dropWhile_sublist (p := (· = 0)) (l := buf.1.reverse)).length_le
    have hfewer := (List.dropWhile_sublist (p := (· = 0)) (l := data)).length_le
    rw [List.length_reverse, hbuf.length] at hle
    omega
  · simp only [b58enc, hrest, hbuffer, List.map_append, List.map_replicate]
    rfl

/-! ## Addresses of 25 bytes -/

theorem length_beBytes (size n : Nat) : (beBytes size n).length = size := by
  induction size with
  | zero => rfl
  | succ size ih => rw [beBytes, List.length_cons, ih]

theorem byteValue_beBytes (size n : Nat) : byteValue (beBytes size n) = n % 256 ^ size := by
  induction size with
  | zero => simp [beBytes, byteValue, Nat.mod_one]
  | succ size ih =>
    have htop : (UInt8.ofNat (n / 256 ^ size)).toNat = n / 256 ^ size % 256 :=
      UInt8.toNat_ofNat'
    rw [beBytes, byteValue_cons, ih, length_beBytes, htop, Nat.pow_succ, Nat.mod_mul,
      Nat.add_comm, Nat.mul_comm]

theorem beBytes_byteValue (bytes : List UInt8) :
    beBytes bytes.length (byteValue bytes) = bytes := by
  refine byteValue_inj (length_beBytes _ _) ?_
  rw [byteValue_beBytes, Nat.mod_eq_of_lt (byteValue_lt bytes)]

/-- Two texts have as many leading places of a kind, if both end where one does. -/
theorem leading_eq_iff {α β : Type} {p : α → Bool} {q : β → Bool} {a : α} {b : β}
    (ha : p a = false) (hb : q b = false) (xs : List α) (ys : List β) :
    let both := ((xs.zip ys).takeWhile fun pair => p pair.1 && q pair.2).length
    (p (xs.getD both a) = false ∧ q (ys.getD both b) = false) ↔
      (xs.takeWhile p).length = (ys.takeWhile q).length := by
  induction xs generalizing ys with
  | nil =>
    cases ys with
    | nil => simp [ha, hb]
    | cons y ys => cases hy : q y <;> simp [ha, hy]
  | cons x xs ih =>
    cases ys with
    | nil => cases hx : p x <;> simp [hb, hx]
    | cons y ys =>
      have hrest := ih ys
      cases hx : p x <;> cases hy : q y <;> simp [hx, hy] at hrest ⊢
      exact hrest

/-- What `b58check` checks. -/
theorem b58check_eq_some_iff {sha256 : List UInt8 → List UInt8} {bin text : List UInt8}
    {version : UInt8} :
    b58check sha256 bin text = some version ↔
      bin.drop 21 = (sha256 (sha256 (bin.take 21))).take 4 ∧
      (bin.takeWhile (· = 0)).length = (text.takeWhile (· = 49)).length ∧
      bin.head? = some version := by
  have hleading := leading_eq_iff (p := fun byte : UInt8 => decide (byte = 0))
    (q := fun ch : UInt8 => decide (ch = 49)) (a := 0xff) (b := 0) rfl rfl bin text
  simp only at hleading
  rw [← hleading]
  simp only [b58check, ne_eq, Bool.or_eq_true, decide_eq_true_eq, decide_eq_false_iff_not]
  constructor
  · intro h
    split_ifs at h with hsum hzeros
    push Not at hzeros
    exact ⟨hsum, hzeros, h⟩
  · rintro ⟨hsum, hzeros, hversion⟩
    rw [if_neg (not_not.mpr hsum), if_neg (by push Not; exact hzeros), hversion]

/-- The leading ones of a text of digits are the leading zeros of the digits. -/
theorem leading_ones {digits : List Nat} (hdigits : ∀ d ∈ digits, d < 58) :
    ((digits.map b58Char).takeWhile (· = 49)).length = (digits.takeWhile (· = 0)).length := by
  have hone : ∀ d < 58, b58Char d = 49 ↔ d = 0 := by decide +kernel
  induction digits with
  | nil => rfl
  | cons digit digits ih =>
    have hrest := ih fun d hd => hdigits d (List.mem_cons_of_mem _ hd)
    have hiff := hone digit (hdigits digit List.mem_cons_self)
    by_cases hzero : digit = 0
    · rw [List.map_cons, List.takeWhile_cons_of_pos (by simpa using hiff.mpr hzero),
        List.takeWhile_cons_of_pos (by simpa using hzero), List.length_cons, List.length_cons,
        hrest]
    · rw [List.map_cons, List.takeWhile_cons_of_neg (by simpa using fun h => hzero (hiff.mp h)),
        List.takeWhile_cons_of_neg (by simpa using hzero)]
      rfl

/-- A list is as many zeros as it begins with, and the rest. -/
theorem replicate_append_dropWhile (digits : List Nat) :
    List.replicate (digits.takeWhile (· = 0)).length 0 ++ digits.dropWhile (· = 0) = digits := by
  have hzeros : digits.takeWhile (· = 0) =
      List.replicate (digits.takeWhile (· = 0)).length 0 := by
    refine List.eq_replicate_of_mem fun d hd => ?_
    simpa using List.mem_takeWhile_imp hd
  rw [← hzeros, List.takeWhile_append_dropWhile]

theorem takeWhile_replicate_append {count : Nat} {digits : List Nat} (h : digits.head? ≠ some 0) :
    ((List.replicate count 0 ++ digits).takeWhile (· = 0)).length = count := by
  have hnone : digits.takeWhile (· = 0) = [] := by
    cases digits with
    | nil => rfl
    | cons digit digits =>
      refine List.takeWhile_cons_of_neg ?_
      simpa using h
  rw [List.takeWhile_append_of_pos (by intro d hd; simp [List.eq_of_mem_replicate hd]), hnone,
    List.append_nil, List.length_replicate]

/-- Twenty-five bytes have a text, which is read as their number and has as many leading ones
    as they have leading zeros. -/
theorem exists_b58enc {data : List UInt8} (hlength : data.length = 25) :
    ∃ text, b58enc 255 data = some text ∧ b58tobin text = some data ∧
      (data.takeWhile (· = 0)).length = (text.takeWhile (· = 49)).length := by
  obtain ⟨digits, hdigits, hhead, hvalue, hshort, henc⟩ := b58enc_spec data
  have hzeros := (List.takeWhile_sublist (p := (· = 0)) (l := data)).length_le
  have hall : ∀ d ∈ List.replicate (data.takeWhile (· = 0)).length 0 ++ digits, d < 58 := by
    intro d hd
    rcases List.mem_append.mp hd with hmem | hmem
    · rw [List.eq_of_mem_replicate hmem]
      decide
    · exact hdigits d hmem
  have hnumber : BigEndian.value 58 (List.replicate (data.takeWhile (· = 0)).length 0 ++ digits) =
      byteValue data := by
    rw [BigEndian.value_append, BigEndian.value_replicate_zero, Nat.zero_mul, Nat.zero_add, hvalue]
  have hlt := byteValue_lt data
  rw [hlength] at hlt hshort
  refine ⟨_, by rw [henc, if_neg (by omega)], ?_, ?_⟩
  · have hread := b58Value_map hall 0 (by rw [hnumber, Nat.zero_mul, Nat.zero_add]; exact hlt)
    rw [Nat.zero_mul, Nat.zero_add, hnumber] at hread
    rw [b58tobin, hread, Option.map_some, ← hlength, beBytes_byteValue]
  · rw [leading_ones hall, takeWhile_replicate_append hhead]

/-- A text that is read, with as many leading ones as there are leading zeros, is the text of
    the bytes. -/
theorem b58enc_of_b58tobin {text data : List UInt8} (h : b58tobin text = some data)
    (hleading : (data.takeWhile (· = 0)).length = (text.takeWhile (· = 49)).length) :
    b58enc 255 data = some text := by
  obtain ⟨n, hread, rfl⟩ := Option.map_eq_some_iff.mp h
  obtain ⟨digits, rfl, hdigits, hn⟩ := exists_digits_of_b58Value hread
  rw [Nat.zero_mul, Nat.zero_add] at hn
  obtain ⟨others, hothers, hhead, hvalue, hshort, henc⟩ := b58enc_spec (beBytes 25 n)
  have hzeros := (List.takeWhile_sublist (p := (· = 0)) (l := beBytes 25 n)).length_le
  rw [length_beBytes] at hshort hzeros
  have hsame : others = digits.dropWhile (· = 0) := by
    refine BigEndian.eq_of_value_eq (by decide) hothers ?_ hhead ?_ ?_
    · exact fun d hd => hdigits d ((List.dropWhile_sublist _).mem hd)
    · intro hzero
      have hnot := List.head?_dropWhile_not (· = 0) digits
      rw [hzero] at hnot
      simp at hnot
    · rw [hvalue, byteValue_beBytes, BigEndian.value_dropWhile_zero, ← hn]
      exact Nat.mod_eq_of_lt (b58Value_lt (by decide) hread)
  rw [henc, if_neg (by omega), hsame, hleading, leading_ones hdigits,
    replicate_append_dropWhile]

end ChirpGateway
