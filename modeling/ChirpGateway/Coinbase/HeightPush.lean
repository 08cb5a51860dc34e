import ChirpGateway.Coinbase.ScriptSig
import ChirpGateway.Lib.Hex
import ChirpGateway.Lib.ScriptNum
import ChirpGateway.Lib.Writes
import Mathlib.Data.Nat.Log

/-!
# The push of the height

`append_UNum_hex` (`datum_utils.c:320-363`), which writes the push of a number as text. The
size in front of the bytes is written first, and once more where a byte has to be added for
the sign.
-/

namespace ChirpGateway

open Script ScriptNum Wire Writes

/-- `uchar_to_hex`. -/
def ucharToHex (mem : Nat → UInt8) (s : Nat) (b : UInt8) : Nat → UInt8 :=
  store mem ⟨s, Hex.encodeByte b⟩

theorem toNat_nextByte (n : UInt64) : (n >>> 8).toNat = n.toNat / 256 := by
  rw [UInt64.toNat_shiftRight]
  exact Nat.shiftRight_eq_div_pow n.toNat 8

/-- The loop that counts the bytes, which goes on while there is something left. -/
def unumCount (temp : UInt64) : Nat :=
  if temp >>> 8 ≠ 0 then unumCount (temp >>> 8) + 1 else 1
termination_by temp.toNat
decreasing_by
  next hleft =>
    have hpos : (temp >>> 8).toNat ≠ 0 := fun hzero => hleft (UInt64.toNat_inj.mp hzero)
    rw [toNat_nextByte] at hpos ⊢
    omega

/-- The loop over the bytes, with `len` and `last_msb`. -/
def unumLoop (s : Nat) : (turns : Nat) → (n : UInt64) → (mem : Nat → UInt8) →
    (len : Nat) →
    (lastMsb : Bool) → (Nat → UInt8) × Nat × Bool
  | 0, _, mem, len, lastMsb => (mem, len, lastMsb)
  | turns + 1, n, mem, len, _ =>
    unumLoop s turns (n >>> 8) (ucharToHex mem (s + len) (n &&& 0xff).toUInt8) (len + 2)
      (n ≥ 0x80)

/-- `append_UNum_hex`: the memory, and what it returns. -/
def appendUNumHex (mem : Nat → UInt8) (n : UInt64) (s : Nat) : (Nat → UInt8) × Nat :=
  if n = 0 then (store mem ⟨s, [0x30, 0x30, 0]⟩, 2)
  else if n ≤ 16 then (store (ucharToHex mem s (0x50 + n).toUInt8) ⟨s + 2, [0]⟩, 2)
  else
    let count := unumCount n
    let mem := ucharToHex mem s (UInt8.ofNat count)
    let (mem, len, lastMsb) := unumLoop s count n mem 2 false
    if lastMsb then
      let mem := ucharToHex mem s (UInt8.ofNat (count + 1))
      let mem := ucharToHex mem (s + len) 0
      (store mem ⟨s + (len + 2), [0]⟩, len + 2)
    else (store mem ⟨s + len, [0]⟩, len)

/-! ## The loops -/

theorem unumCount_eq (n : UInt64) :
    ∃ top, unumCount n = top + 1 ∧ n.toNat < 256 ^ (top + 1) ∧
      (n ≠ 0 → 256 ^ top ≤ n.toNat) := by
  induction n using unumCount.induct with
  | case1 n hleft ih =>
    obtain ⟨top, hcount, hlt, hle⟩ := ih
    rw [toNat_nextByte] at hlt hle
    refine ⟨top + 1, by rw [unumCount, if_pos hleft, hcount], ?_, fun _ => ?_⟩
    · rw [Nat.pow_succ]
      omega
    · have hhigh := hle hleft
      rw [Nat.pow_succ]
      omega
  | case2 n hlast =>
    have hzero : (n >>> 8).toNat = 0 := by rw [not_not.mp hlast]; rfl
    rw [toNat_nextByte] at hzero
    refine ⟨0, by rw [unumCount, if_neg hlast], by omega, fun hne => ?_⟩
    have hpos : n.toNat ≠ 0 := fun hzero => hne (UInt64.toNat_inj.mp hzero)
    omega

theorem toUInt8_lowByte (n : UInt64) : (n &&& 0xff).toUInt8 = UInt8.ofNat n.toNat := by
  apply UInt8.toNat_inj.mp
  rw [UInt64.toNat_toUInt8, UInt64.toNat_and, UInt8.toNat_ofNat']
  exact (congrArg (· % 256) (Nat.and_two_pow_sub_one_eq_mod _ 8)).trans (Nat.mod_mod _ _)

/-- The loop writes the bytes behind the text, and remembers the highest bit of the last. -/
theorem unumLoop_eq {s turns : Nat} {n : UInt64} {mem : Nat → UInt8} {text : List UInt8}
    {lastMsb : Bool} (h : Holds mem ⟨s, text⟩) :
    ∃ after, unumLoop s (turns + 1) n mem text.length lastMsb =
        (after, text.length + 2 * (turns + 1), decide (0x80 ≤ n.toNat / 256 ^ turns)) ∧
      Holds after ⟨s, text ++ Hex.encode (leBytes (turns + 1) n.toNat)⟩ := by
  induction turns generalizing n mem text lastMsb with
  | zero =>
    have hnext := h.store_behind (Hex.encodeByte (n &&& 0xff).toUInt8)
    have hbytes : Hex.encode (leBytes 1 n.toNat) = Hex.encodeByte (n &&& 0xff).toUInt8 := by
      rw [toUInt8_lowByte]
      simp [leBytes, Hex.encode]
    refine ⟨ucharToHex mem (s + text.length) (n &&& 0xff).toUInt8, ?_, ?_⟩
    · rw [unumLoop, unumLoop, Nat.pow_zero, Nat.div_one]
      rfl
    · rw [hbytes]
      exact hnext
  | succ turns ih =>
    have hnext := h.store_behind (Hex.encodeByte (n &&& 0xff).toUInt8)
    have hlength : (text ++ Hex.encodeByte (n &&& 0xff).toUInt8).length = text.length + 2 :=
      List.length_append
    obtain ⟨after, hloop, hholds⟩ := @ih (n >>> 8) _ _ (decide (n ≥ 0x80)) hnext
    have hbytes : text ++ Hex.encode (leBytes (turns + 1 + 1) n.toNat) =
        text ++ Hex.encodeByte (n &&& 0xff).toUInt8 ++
          Hex.encode (leBytes (turns + 1) (n >>> 8).toNat) := by
      rw [leBytes, toUInt8_lowByte, toNat_nextByte, List.append_assoc]
      rfl
    rw [hlength, toNat_nextByte, Nat.div_div_eq_div_mul, ← Nat.pow_succ'] at hloop
    refine ⟨after, ?_, hbytes ▸ hholds⟩
    rw [unumLoop, ucharToHex, hloop, Nat.add_assoc, Nat.mul_succ 2 (turns + 1),
      Nat.add_comm 2]

/-! ## The bytes -/

/-- The bytes of a positive number are its shortest form. -/
theorem unumBytes_eq {top n : Nat} (hpos : 256 ^ top ≤ n) (hsize : n < 256 ^ (top + 1)) :
    unumBytes n = positiveBytes top n := by
  have hne : n ≠ 0 := Nat.ne_of_gt (Nat.lt_of_lt_of_le (Nat.pow_pos (by decide)) hpos)
  induction top generalizing n with
  | zero =>
    rw [unumBytes, if_neg hne, if_pos (by simpa using hsize), positiveBytes, Nat.pow_zero,
      Nat.div_one]
    by_cases hsign : n ≥ 0x80
    · rw [if_pos hsign, if_pos hsign]
      rfl
    · rw [if_neg hsign, if_neg hsign]
      rfl
  | succ top ih =>
    have hlow : 256 ^ top ≤ n / 256 := by
      rw [Nat.le_div_iff_mul_le (by decide), ← Nat.pow_succ]
      exact hpos
    have hhigh : n / 256 < 256 ^ (top + 1) := by
      apply Nat.div_lt_of_lt_mul
      rwa [← Nat.pow_succ']
    have hwide : ¬n < 256 := by
      have hone : 0 < 256 ^ top := Nat.pow_pos (by decide)
      omega
    have hbytes : leBytes (top + 1 + 1) n = UInt8.ofNat n :: leBytes (top + 1) (n / 256) := rfl
    rw [unumBytes, if_neg hne, if_neg hwide, ih hlow hhigh (by omega)]
    unfold positiveBytes
    rw [hbytes, List.cons_append, Nat.pow_succ', ← Nat.div_div_eq_div_mul]

/-! ## The end of the text -/

section

variable {mem : Nat → UInt8} {s top n : Nat} {size : UInt8}

theorem length_encode_sized (size : UInt8) (top n : Nat) :
    (Hex.encode (size :: leBytes (top + 1) n)).length = 2 + 2 * (top + 1) := by
  rw [Hex.length_encode, List.length_cons, length_leBytes]
  omega

/-- Without a byte for the sign the text is closed behind the number. -/
theorem holds_closed (h : Holds mem ⟨s, Hex.encode (size :: leBytes (top + 1) n)⟩) :
    Holds (store mem ⟨s + (2 + 2 * (top + 1)), [0]⟩)
      ⟨s, Hex.encode (size :: leBytes (top + 1) n) ++ [0]⟩ := by
  have hend := h.store_behind [0]
  rwa [length_encode_sized] at hend

/-- With one, the size is written once more, and the byte behind the number. -/
theorem holds_padded (h : Holds mem ⟨s, Hex.encode (size :: leBytes (top + 1) n)⟩)
    (other : UInt8) :
    Holds (store (ucharToHex (ucharToHex mem s other) (s + (2 + 2 * (top + 1))) 0)
        ⟨s + (2 + 2 * (top + 1) + 2), [0]⟩)
      ⟨s, Hex.encode (other :: (leBytes (top + 1) n ++ [0])) ++ [0]⟩ := by
  have hagain : Holds (ucharToHex mem s other)
      ⟨s, Hex.encode (other :: leBytes (top + 1) n)⟩ := by
    have hfront : Holds mem ⟨s, Hex.encodeByte size ++ Hex.encode (leBytes (top + 1) n)⟩ := h
    exact hfront.store_front rfl
  have hpad := hagain.store_behind (Hex.encodeByte 0)
  rw [length_encode_sized] at hpad
  have hend := hpad.store_behind [0]
  rw [List.length_append, length_encode_sized] at hend
  have hwhole : Hex.encode (other :: (leBytes (top + 1) n ++ [0])) =
      Hex.encode (other :: leBytes (top + 1) n) ++ Hex.encodeByte 0 := by
    simp [Hex.encode]
  rw [hwhole]
  exact hend

end

/-! ## The text -/

theorem toUInt8_opcode (n : UInt64) : (0x50 + n).toUInt8 = UInt8.ofNat (0x50 + n.toNat) := by
  apply UInt8.toNat_inj.mp
  rw [UInt64.toNat_toUInt8, UInt64.toNat_add, UInt8.toNat_ofNat']
  exact Nat.mod_mod_of_dvd _ (by decide)

/-- The text is that of the bytes, and its length is returned. -/
theorem appendUNumHex_holds (mem : Nat → UInt8) (s : Nat) (n : UInt64) :
    Holds (appendUNumHex mem n s).1 ⟨s, Hex.encode (appendUNum n.toNat) ++ [0]⟩ ∧
      (appendUNumHex mem n s).2 = (Hex.encode (appendUNum n.toNat)).length := by
  unfold appendUNumHex
  by_cases hzero : n = 0
  · rw [if_pos hzero, hzero]
    exact ⟨holds_store mem ⟨s, [0x30, 0x30, 0]⟩, rfl⟩
  have hne : n.toNat ≠ 0 := fun hnat => hzero (UInt64.toNat_inj.mp hnat)
  rw [if_neg hzero]
  by_cases hsmall : n ≤ 16
  · have hlow : n.toNat ≤ 16 := UInt64.le_iff_toNat_le.mp hsmall
    have hpush : appendUNum n.toNat = [UInt8.ofNat (0x50 + n.toNat)] := by
      rw [appendUNum, if_neg hne, if_pos hlow]
    rw [if_pos hsmall, hpush, toUInt8_opcode]
    exact ⟨(holds_store mem ⟨s, Hex.encodeByte _⟩).store_behind [0], rfl⟩
  have hwide : ¬n.toNat ≤ 16 := fun hnat => hsmall (UInt64.le_iff_toNat_le.mpr hnat)
  obtain ⟨top, hcount, hsize, hpos⟩ := unumCount_eq n
  have hpush : appendUNum n.toNat =
      UInt8.ofNat (positiveBytes top n.toNat).length :: positiveBytes top n.toNat := by
    rw [appendUNum, if_neg hne, if_neg hwide, unumBytes_eq (hpos hzero) hsize]
  -- the size goes first, and the loop behind it
  have hfirst := holds_store mem ⟨s, Hex.encodeByte (UInt8.ofNat (top + 1))⟩
  obtain ⟨after, hloop, hholds⟩ := @unumLoop_eq s top n _ _ false hfirst
  change unumLoop s (top + 1) n (ucharToHex mem s (UInt8.ofNat (top + 1))) 2 false = _ at hloop
  change Holds after ⟨s, Hex.encode (UInt8.ofNat (top + 1) :: leBytes (top + 1) n.toNat)⟩
    at hholds
  rw [if_neg hsmall, hpush, hcount]
  dsimp only
  rw [hloop]
  dsimp only
  by_cases hsign : 0x80 ≤ n.toNat / 256 ^ top
  · have hpadded : positiveBytes top n.toNat = leBytes (top + 1) n.toNat ++ [0] := by
      rw [positiveBytes, if_pos hsign]
    have hlength : (leBytes (top + 1) n.toNat ++ [0]).length = top + 2 := by
      rw [List.length_append, length_leBytes]
      rfl
    rw [if_pos (decide_eq_true hsign), hpadded, hlength]
    refine ⟨holds_padded hholds _, ?_⟩
    have htext : (Hex.encodeByte (UInt8.ofNat (top + 1))).length = 2 := rfl
    rw [Hex.length_encode, List.length_cons, hlength]
    omega
  · have hkept : positiveBytes top n.toNat = leBytes (top + 1) n.toNat := by
      rw [positiveBytes, if_neg hsign, List.append_nil]
    rw [if_neg (by rw [decide_eq_false hsign]; exact Bool.false_ne_true), hkept, length_leBytes]
    exact ⟨holds_closed hholds, (length_encode_sized _ top n.toNat).symm⟩

/-! ## The push -/

/-- One push of a number, by a constant where there is one, with the number in its shortest
    form. -/
structure IsNumberPush (n : Nat) (script data : List UInt8) : Prop where
  opcode : script =
    if n = 0 then [0] else if n ≤ 16 then [UInt8.ofNat (0x50 + n)]
    else UInt8.ofNat data.length :: data
  direct : data.length ≤ 75
  pushed : readPush script = some (data, [])
  value_eq : value data = n
  minimal : isMinimal data = true
  /-- A byte of zero stands behind a highest byte with its highest bit set, and nowhere else. -/
  padded : n ≠ 0 → ∃ top, 256 ^ top ≤ n ∧ n < 256 ^ (top + 1) ∧
    data = leBytes (top + 1) n ++ if 0x80 ≤ n / 256 ^ top then [0] else []

theorem heightData_eq (n : Nat) : heightData n = unumBytes n := by
  unfold heightData
  split_ifs with hzero hsmall
  · rw [unumBytes, if_pos hzero]
  · rw [unumBytes, if_neg hzero, if_pos (by omega), if_neg (by omega)]
  · rfl

theorem exists_top {n : Nat} (hne : n ≠ 0) : ∃ top, 256 ^ top ≤ n ∧ n < 256 ^ (top + 1) :=
  ⟨Nat.log 256 n, Nat.pow_log_le_self 256 hne, Nat.lt_pow_succ_log_self (by decide) n⟩

theorem isNumberPush_appendUNum {n : Nat} (h : n < 2 ^ 64) :
    IsNumberPush n (appendUNum n) (unumBytes n) where
  opcode := rfl
  direct := length_unumBytes_le_push h
  pushed := by
    have hread := readPush_appendUNum h []
    rwa [List.append_nil, heightData_eq] at hread
  value_eq := by
    by_cases hzero : n = 0
    · rw [unumBytes, if_pos hzero, hzero]
      rfl
    · obtain ⟨top, hpos, hsize⟩ := exists_top hzero
      rw [unumBytes_eq hpos hsize, value_positiveBytes hsize]
  minimal := by
    by_cases hzero : n = 0
    · rw [unumBytes, if_pos hzero]
      rfl
    · obtain ⟨top, hpos, hsize⟩ := exists_top hzero
      rw [unumBytes_eq hpos hsize, isMinimal_positiveBytes hpos hsize]
  padded hne := by
    obtain ⟨top, hpos, hsize⟩ := exists_top hne
    exact ⟨top, hpos, hsize, unumBytes_eq hpos hsize⟩

/-- Whatever the number, the text is closed where the returned length says, and is one push of
    the number. -/
theorem appendUNumHex_push (mem : Nat → UInt8) (s : Nat) (n : UInt64) :
    ∃ script data, IsNumberPush n.toNat script data ∧
      (appendUNumHex mem n s).2 = (Hex.encode script).length ∧
      read (appendUNumHex mem n s).1 s ((appendUNumHex mem n s).2 + 1) =
        Hex.encode script ++ [0] ∧
      0 ∉ Hex.encode script := by
  obtain ⟨hholds, hlen⟩ := appendUNumHex_holds mem s n
  refine ⟨_, _, isNumberPush_appendUNum n.toNat_lt, hlen, ?_, Hex.zero_notMem_encode _⟩
  have hread := hholds.read
  rw [List.length_append, ← hlen] at hread
  exact hread

/-- The largest of the repository's own tests. -/
example : read (appendUNumHex (fun _ => 0xff) 32768 0).1 0 9 =
    Bytes.ascii "03008000" ++ [0] := by
  decide +kernel

end ChirpGateway
