import ChirpGateway.Coinbase.Input
import ChirpGateway.Lib.Script
import Mathlib.Tactic.IntervalCases

/-!
# The script of the coinbase input

`generate_coinbase_input` (`datum_coinbaser.c:64-206`) with the count it keeps of the
bytes it writes, with or without a pool, and when its result is a valid script: the
height, the headline of the activation block, the tags and the unique ID, each in a
push of its own, in at most 100 bytes.
-/

namespace ChirpGateway

open Bytes Script

/-- The bytes that the text in `cb` stands for, and `cb_input_sz`. -/
structure ScriptWriter where
  cb : List UInt8
  cbInputSz : Nat

/-- `uchar_to_hex` and the counting behind it. -/
def ScriptWriter.put (writer : ScriptWriter) (byte : UInt8) : ScriptWriter where
  cb := writer.cb ++ [byte]
  cbInputSz := writer.cbInputSz + 1

/-- A loop that writes some bytes. -/
def ScriptWriter.putAll (writer : ScriptWriter) (bytes : List UInt8) : ScriptWriter :=
  bytes.foldl ScriptWriter.put writer

/-- The primary tag: with a pool its own, which the pool sends. -/
def primaryTag (tags : CoinbaseTags) (overrideTag : Option (List UInt8)) : List UInt8 :=
  overrideTag.getD tags.miningCoinbaseTagPrimary

/-- What is written behind the placeholder of the share target. -/
def uniqueIdWritten (tags : CoinbaseTags) (datumActive : Bool) : List UInt8 :=
  let id := tags.coinbaseUniqueId.toNat
  let prime := tags.primeId.toNat
  [UInt8.ofNat id, UInt8.ofNat (id >>> 8)] ++
    if prime = 0 && !datumActive then []
    else [UInt8.ofNat prime, UInt8.ofNat (prime >>> 8), UInt8.ofNat (prime >>> 16),
      UInt8.ofNat (prime >>> 24)]

/-- `max_tag_space`. -/
def tagSpace (headline : List UInt8) : Nat :=
  maxCoinbaseTagSpace - if headline.isEmpty then 0 else headline.length + 2

/-- What `generate_coinbase_input` leaves: the text, the count it returns, and
    `target_pot_index`. -/
structure CoinbaseScript where
  cb : List UInt8
  returned : Nat
  targetPotIndex : Nat

/-- `generate_coinbase_input`; `overrideTag` is the tag of an active pool. -/
def generateCoinbaseScript (tags : CoinbaseTags) (overrideTag : Option (List UInt8))
    (tmpl : DatumTemplate) (supName : List UInt8) : Option CoinbaseScript :=
  let height := appendUNum (coinbaseHeight tmpl.height)
  let writer : ScriptWriter := { cb := height, cbInputSz := height.length }
  let headline := b2bHeadline tmpl
  let maxTagSpace := tagSpace headline
  let writer :=
    if headline.isEmpty then writer
    else (writer.putAll (pushBytes headline.length)).putAll headline
  let primary := primaryTag tags overrideTag
  let secondary := secTag tags supName
  let (len1, k) := fitTags maxTagSpace primary.length secondary.length
  if k > maxTagSpace then none
  else
    let writer :=
      if k > 0 then
        (writer.putAll (pushBytes k)).putAll (tagContent primary (secondary.take len1))
      else writer.putAll [1, 0]
    let uniqueId := uniqueIdWritten tags overrideTag.isSome
    let writer := writer.put (UInt8.ofNat (uniqueId.length + 1))
    let targetPotIndex := writer.cbInputSz
    let writer := (writer.put 0xff).putAll uniqueId
    some { cb := writer.cb, returned := writer.cbInputSz, targetPotIndex }

/-! ## What is written -/

theorem ScriptWriter.putAll_eq (writer : ScriptWriter) (bytes : List UInt8) :
    writer.putAll bytes =
      { cb := writer.cb ++ bytes, cbInputSz := writer.cbInputSz + bytes.length } := by
  induction bytes generalizing writer with
  | nil => simp [putAll]
  | cons byte bytes ih =>
    show (writer.put byte).putAll bytes = _
    rw [ih]
    simp [put, Nat.add_assoc, Nat.add_comm 1]

/-- The height and the headline. -/
def scriptFront (tmpl : DatumTemplate) : List UInt8 :=
  appendUNum (coinbaseHeight tmpl.height) ++
    if (b2bHeadline tmpl).isEmpty then []
    else pushBytes (b2bHeadline tmpl).length ++ b2bHeadline tmpl

/-- The script around the push of the tags. -/
def scriptAround (tags : CoinbaseTags) (overrideTag : Option (List UInt8)) (tmpl : DatumTemplate)
    (push : List UInt8) : CoinbaseScript :=
  let uniqueId := uniqueIdWritten tags overrideTag.isSome
  let cb := scriptFront tmpl ++ push ++ UInt8.ofNat (uniqueId.length + 1) :: 0xff :: uniqueId
  { cb, returned := cb.length, targetPotIndex := (scriptFront tmpl ++ push).length + 1 }

section Written

variable {tags : CoinbaseTags} {overrideTag : Option (List UInt8)} {tmpl : DatumTemplate}
  {supName : List UInt8}

/-- The count is that of the bytes, and the index is behind the opcode of the ID. -/
theorem generateCoinbaseScript_eq :
    generateCoinbaseScript tags overrideTag tmpl supName =
      (tagPush (tagSpace (b2bHeadline tmpl)) (primaryTag tags overrideTag)
        (secTag tags supName)).map (scriptAround tags overrideTag tmpl) := by
  unfold generateCoinbaseScript tagPush scriptAround scriptFront
  dsimp only
  generalize fitTags (tagSpace (b2bHeadline tmpl)) (primaryTag tags overrideTag).length
    (secTag tags supName).length = fitted
  by_cases hover : fitted.2 > tagSpace (b2bHeadline tmpl)
  · rw [if_pos hover, if_pos hover]
    rfl
  · rw [if_neg hover, if_neg hover]
    by_cases hnone : (b2bHeadline tmpl).isEmpty <;> by_cases hpush : fitted.2 > 0 <;>
      simp [hnone, hpush, ScriptWriter.putAll_eq, ScriptWriter.put] <;> omega

/-- Without a pool it is the script that the transactions are built from. -/
theorem generateCoinbaseScript_withoutPool :
    ((generateCoinbaseScript tags none tmpl supName).map fun script =>
        { bytes := script.cb, targetPotIndex := script.targetPotIndex }) =
      generateCoinbaseInput tags tmpl supName := by
  have hid : uniqueIdWritten tags false = uniqueIdBytes tags := by
    simp [uniqueIdWritten, uniqueIdBytes]
  rw [generateCoinbaseScript_eq]
  unfold generateCoinbaseInput
  have hspace : (maxCoinbaseTagSpace - if (b2bHeadline tmpl).isEmpty then 0
      else (b2bHeadline tmpl).length + 2) = tagSpace (b2bHeadline tmpl) := rfl
  have hprimary : tags.miningCoinbaseTagPrimary = primaryTag tags none := rfl
  dsimp only
  rw [hspace, hprimary]
  cases tagPush (tagSpace (b2bHeadline tmpl)) (primaryTag tags none) (secTag tags supName) with
  | none => rfl
  | some push =>
    simp only [Option.map_some, scriptAround, Option.isSome_none, hid]
    rfl

end Written

/-! ## The pushes -/

/-- What the height is to the script. -/
def heightData (n : Nat) : List UInt8 :=
  if n = 0 then [] else if n ≤ 16 then [UInt8.ofNat n] else unumBytes n

theorem length_unumBytes_of_lt {n size : Nat} (h : n < 128 * 256 ^ size) :
    (unumBytes n).length ≤ size + 1 := by
  induction size generalizing n with
  | zero =>
    rw [unumBytes]
    split
    · exact Nat.zero_le _
    · rw [if_pos (by omega), if_neg (by omega)]
      exact Nat.le_refl 1
  | succ size ih =>
    rw [unumBytes]
    split
    · exact Nat.zero_le _
    · split
      · split
        · exact Nat.le_add_left 2 size
        · exact Nat.le_add_left 1 (size + 1)
      · rw [List.length_cons]
        have hlt : n / 256 < 128 * 256 ^ size := by
          apply Nat.div_lt_of_lt_mul
          rwa [Nat.mul_left_comm, ← Nat.pow_succ']
        exact Nat.succ_le_succ (ih hlt)

theorem length_unumBytes_le_four {n : Nat} (h : n < 2 ^ 31) : (unumBytes n).length ≤ 4 :=
  length_unumBytes_of_lt (Nat.lt_of_lt_of_le h (by decide))

theorem length_appendUNum_le_five {n : Nat} (h : n < 2 ^ 31) : (appendUNum n).length ≤ 5 := by
  unfold appendUNum
  split
  · decide
  · split
    · exact Nat.le_add_left 1 4
    · exact Nat.succ_le_succ (length_unumBytes_le_four h)

/-- Even the largest number fits behind its size. -/
theorem length_unumBytes_le_push {n : Nat} (h : n < 2 ^ 64) : (unumBytes n).length ≤ 75 :=
  Nat.le_trans (length_unumBytes_le (show n < 256 ^ 8 from h)) (by decide)

theorem readPush_appendUNum {n : Nat} (h : n < 2 ^ 64) (rest : List UInt8) :
    readPush (appendUNum n ++ rest) = some (heightData n, rest) := by
  unfold appendUNum heightData
  by_cases hzero : n = 0
  · rw [if_pos hzero, if_pos hzero]
    rfl
  · rw [if_neg hzero, if_neg hzero]
    by_cases hsmall : n ≤ 16
    · rw [if_pos hsmall, if_pos hsmall]
      interval_cases n
      · exact absurd rfl hzero
      all_goals rfl
    · rw [if_neg hsmall, if_neg hsmall]
      exact (readPush_of_le (length_unumBytes_le_push h) _).trans (takeCounted_append _ rest)

theorem readPush_pushBytes {size : Nat} (h : size ≤ 255) (rest : List UInt8) :
    readPush (pushBytes size ++ rest) = takeCounted size rest := by
  unfold pushBytes
  split
  · next hshort => exact readPush_of_le hshort rest
  · exact readPush_pushdata1 h rest

theorem readPush_pushBytes_append {data : List UInt8} (h : data.length ≤ 255)
    (rest : List UInt8) :
    readPush (pushBytes data.length ++ data ++ rest) = some (data, rest) := by
  rw [List.append_assoc, readPush_pushBytes h, takeCounted_append]

/-! ## The tags -/

/-- `k` before anything is cut. -/
def tagsNeeded (len0 len1 : Nat) : Nat :=
  len0 + len1 + 2 - (if len1 = 0 then (if len0 = 0 then 2 else 1) else 0)

/-- What the tags push; a null where there are none. -/
def tagItem (primary kept : List UInt8) : List UInt8 :=
  if primary.isEmpty && kept.isEmpty then [0] else tagContent primary kept

/-- All the tags fit, or a part of the second one does. -/
def TagsFit (space len0 len1 : Nat) : Prop :=
  tagsNeeded len0 len1 ≤ space ∨ (len1 ≠ 0 ∧ len0 + 2 < space)

theorem length_tagContent (primary kept : List UInt8) :
    (tagContent primary kept).length = tagsNeeded primary.length kept.length := by
  cases primary <;> cases kept <;> simp [tagContent, tagsNeeded]
  omega

theorem tagsNeeded_pos {len0 len1 : Nat} (h : ¬(len0 = 0 ∧ len1 = 0)) :
    0 < tagsNeeded len0 len1 := by
  unfold tagsNeeded
  split_ifs <;> omega

/-- The push declares what it holds when the tags fit. -/
theorem tagPush_of_tagsFit {space : Nat} {primary secondary : List UInt8}
    (h : TagsFit space primary.length secondary.length) :
    ∃ kept, kept <+: secondary ∧
      (tagItem primary kept).length =
        max 1 (min (tagsNeeded primary.length secondary.length) space) ∧
      tagPush space primary secondary =
        some (pushBytes (tagItem primary kept).length ++ tagItem primary kept) := by
  by_cases hall : tagsNeeded primary.length secondary.length ≤ space
  · have hfit : fitTags space primary.length secondary.length =
        (secondary.length, tagsNeeded primary.length secondary.length) := by
      unfold fitTags
      exact if_neg (Nat.not_lt.mpr hall)
    refine ⟨secondary, List.prefix_refl _, ?_⟩
    rw [tagPush, hfit]
    dsimp only
    rw [if_neg (Nat.not_lt.mpr hall), List.take_length, Nat.min_eq_left hall]
    by_cases hnone : primary.isEmpty && secondary.isEmpty
    · obtain ⟨hprimary, hsecondary⟩ := Bool.and_eq_true_iff.mp hnone
      rw [List.isEmpty_iff] at hprimary hsecondary
      subst hprimary hsecondary
      exact ⟨rfl, rfl⟩
    · have hpos : 0 < tagsNeeded primary.length secondary.length := by
        apply tagsNeeded_pos
        simpa [List.isEmpty_iff] using hnone
      rw [tagItem, if_neg hnone, length_tagContent, if_pos hpos]
      exact ⟨(Nat.max_eq_right hpos).symm, rfl⟩
  · obtain ⟨hsome, hroom⟩ := h.resolve_left hall
    have hneed : tagsNeeded primary.length secondary.length =
        primary.length + secondary.length + 2 := by
      rw [tagsNeeded, if_neg hsome, Nat.sub_zero]
    -- the second tag gives up the whole excess
    have hfit : fitTags space primary.length secondary.length =
        (space - primary.length - 2, space) := by
      unfold fitTags
      rw [← tagsNeeded, if_pos (Nat.lt_of_not_le hall), hneed, if_pos (by omega)]
      congr 1
      omega
    have hkept : (secondary.take (space - primary.length - 2)).length =
        space - primary.length - 2 := by
      rw [List.length_take]
      omega
    have hitem : tagItem primary (secondary.take (space - primary.length - 2)) =
        tagContent primary (secondary.take (space - primary.length - 2)) := by
      apply if_neg
      rw [Bool.and_eq_true_iff, List.isEmpty_iff_length_eq_zero, List.isEmpty_iff_length_eq_zero,
        hkept]
      omega
    have hlen : (tagItem primary (secondary.take (space - primary.length - 2))).length = space := by
      rw [hitem, length_tagContent, hkept, tagsNeeded, if_neg (by omega)]
      omega
    refine ⟨secondary.take (space - primary.length - 2), List.take_prefix _ _, ?_, ?_⟩
    · rw [hlen]
      omega
    · rw [hlen, hitem, tagPush, hfit]
      dsimp only
      rw [if_neg (Nat.lt_irrefl _), if_pos (by omega)]

/-- Where they do not it declares more than it holds, if there is a push at all. -/
theorem tagPush_of_not_tagsFit {space : Nat} {primary secondary push : List UInt8}
    (h : ¬TagsFit space primary.length secondary.length)
    (hpush : tagPush space primary secondary = some push) :
    ∃ k content, push = pushBytes k ++ content ∧ content.length < k ∧ k ≤ space := by
  unfold TagsFit at h
  obtain ⟨hover, hpart⟩ := not_or.mp h
  unfold tagPush at hpush
  by_cases hnone : secondary.length = 0
  · have hfit : fitTags space primary.length secondary.length =
        (secondary.length, tagsNeeded primary.length secondary.length) := by
      unfold fitTags
      rw [← tagsNeeded, if_pos (Nat.lt_of_not_le hover), if_neg (by omega),
        if_neg (not_not.mpr hnone)]
    rw [hfit] at hpush
    dsimp only at hpush
    rw [if_pos (Nat.lt_of_not_le hover)] at hpush
    cases hpush
  · have hneed : tagsNeeded primary.length secondary.length =
        primary.length + secondary.length + 2 := by
      rw [tagsNeeded, if_neg hnone, Nat.sub_zero]
    -- the removed tag gives back one byte
    have hfit : fitTags space primary.length secondary.length =
        (0, primary.length + secondary.length + 1) := by
      unfold fitTags
      rw [← tagsNeeded, if_pos (Nat.lt_of_not_le hover), hneed, if_neg (by omega),
        if_pos hnone]
      rfl
    rw [hfit] at hpush
    dsimp only at hpush
    by_cases hpanic : primary.length + secondary.length + 1 > space
    · rw [if_pos hpanic] at hpush
      cases hpush
    · rw [if_neg hpanic, if_pos (by omega)] at hpush
      refine ⟨_, _, (Option.some.inj hpush).symm, ?_, Nat.le_of_not_lt hpanic⟩
      rw [List.take_zero, length_tagContent, List.length_nil, tagsNeeded]
      split_ifs <;> omega

/-! ## A valid script -/

/-- The script of the activation block holds its headline. -/
def headlineItems (tmpl : DatumTemplate) : List (List UInt8) :=
  if (b2bHeadline tmpl).isEmpty then [] else [b2bHeadline tmpl]

/-- The script is short enough and counted, its pushes are the height, the headline, the
    tags and the unique ID, and the index is that of the placeholder. -/
structure CoinbaseScript.Valid (script : CoinbaseScript) (tags : CoinbaseTags)
    (overrideTag : Option (List UInt8)) (tmpl : DatumTemplate) (supName : List UInt8) :
    Prop where
  returned_le : script.returned ≤ 100
  returned_eq : script.returned = script.cb.length
  pushes : ∃ kept, kept <+: secTag tags supName ∧
    PushesTo script.cb (heightData (coinbaseHeight tmpl.height) :: (headlineItems tmpl ++
      [tagItem (primaryTag tags overrideTag) kept,
        0xff :: uniqueIdWritten tags overrideTag.isSome]))
  placeholder : script.cb.drop script.targetPotIndex =
    0xff :: uniqueIdWritten tags overrideTag.isSome

/-- `generate_coinbase_input` returns, and the script is valid. -/
def WritesValidScript (tags : CoinbaseTags) (overrideTag : Option (List UInt8))
    (tmpl : DatumTemplate) (supName : List UInt8) : Prop :=
  ∃ script, generateCoinbaseScript tags overrideTag tmpl supName = some script ∧
    script.Valid tags overrideTag tmpl supName

/-- The bytes of the height, and those behind the tags. -/
def scriptOverhead (tags : CoinbaseTags) (overrideTag : Option (List UInt8))
    (tmpl : DatumTemplate) : Nat :=
  (appendUNum (coinbaseHeight tmpl.height)).length +
    ((uniqueIdWritten tags overrideTag.isSome).length + 2)

/-- The tags fit beside the headline. Where there are no tags the headline leaves room for
    the ID, and where there is no headline tags that fill their space do. -/
structure ScriptRoom (tags : CoinbaseTags) (overrideTag : Option (List UInt8))
    (tmpl : DatumTemplate) (supName : List UInt8) : Prop where
  fits : TagsFit (tagSpace (b2bHeadline tmpl)) (primaryTag tags overrideTag).length
    (secTag tags supName).length
  untagged : tagsNeeded (primaryTag tags overrideTag).length (secTag tags supName).length = 0 →
    (b2bHeadline tmpl).length + scriptOverhead tags overrideTag tmpl ≤ 96
  unheaded : (b2bHeadline tmpl).length = 0 →
    86 ≤ tagsNeeded (primaryTag tags overrideTag).length (secTag tags supName).length →
    scriptOverhead tags overrideTag tmpl ≤ 12

section Room

variable {tags : CoinbaseTags} {overrideTag : Option (List UInt8)} {tmpl : DatumTemplate}
  {supName : List UInt8}

theorem coinbaseHeight_lt (h : tmpl.height.toNat < 2 ^ 31) :
    coinbaseHeight tmpl.height < 2 ^ 31 := by
  rw [coinbaseHeight, if_pos h]
  exact h

theorem length_uniqueIdWritten_le (tags : CoinbaseTags) (datumActive : Bool) :
    (uniqueIdWritten tags datumActive).length ≤ 6 := by
  unfold uniqueIdWritten
  simp only [List.length_append]
  split <;> simp

theorem scriptOverhead_le (tags : CoinbaseTags) (overrideTag : Option (List UInt8))
    (h : tmpl.height.toNat < 2 ^ 31) :
    scriptOverhead tags overrideTag tmpl ≤ 13 := by
  have hheight := length_appendUNum_le_five (coinbaseHeight_lt h)
  have hid := length_uniqueIdWritten_le tags overrideTag.isSome
  unfold scriptOverhead
  omega

theorem length_pushBytes (size : Nat) :
    (pushBytes size).length = if size ≤ 75 then 1 else 2 := by
  unfold pushBytes
  split <;> rfl

theorem tagSpace_eq (headline : List UInt8) :
    tagSpace headline = 86 - if headline.length = 0 then 0 else headline.length + 2 := by
  cases headline <;> rfl

/-- The lengths alone: the headline takes its push off the space of the tags. -/
theorem scriptLength_le_iff {headline needed overhead space item : Nat} (hover : overhead ≤ 13)
    (hspace : space = 86 - if headline = 0 then 0 else headline + 2)
    (hitem : item = max 1 (min needed space)) (hfits : needed ≤ space ∨ 2 < space) :
    overhead + (if headline = 0 then 0 else (if headline ≤ 75 then 1 else 2) + headline) +
        ((if item ≤ 75 then 1 else 2) + item) ≤ 100 ↔
      (needed = 0 → headline + overhead ≤ 96) ∧
        (headline = 0 → 86 ≤ needed → overhead ≤ 12) := by
  by_cases hnone : headline = 0
  · rw [if_pos hnone] at hspace ⊢
    split <;> omega
  · rw [if_neg hnone] at hspace ⊢
    split <;> split <;> omega

theorem length_scriptFront :
    (scriptFront tmpl).length = (appendUNum (coinbaseHeight tmpl.height)).length +
      if (b2bHeadline tmpl).length = 0 then 0
      else (if (b2bHeadline tmpl).length ≤ 75 then 1 else 2) + (b2bHeadline tmpl).length := by
  unfold scriptFront
  rw [List.length_append]
  by_cases hnone : b2bHeadline tmpl = []
  · simp [hnone]
  · simp [hnone, length_pushBytes]

theorem length_scriptAround (tags : CoinbaseTags) (overrideTag : Option (List UInt8))
    (tmpl : DatumTemplate) (push : List UInt8) :
    (scriptAround tags overrideTag tmpl push).cb.length =
      scriptOverhead tags overrideTag tmpl + (if (b2bHeadline tmpl).length = 0 then 0
        else (if (b2bHeadline tmpl).length ≤ 75 then 1 else 2) + (b2bHeadline tmpl).length) +
        push.length := by
  unfold scriptAround scriptOverhead
  simp only [List.length_append, List.length_cons, length_scriptFront]
  omega

theorem placeholder_scriptAround (push : List UInt8) :
    (scriptAround tags overrideTag tmpl push).cb.drop
        (scriptAround tags overrideTag tmpl push).targetPotIndex =
      0xff :: uniqueIdWritten tags overrideTag.isSome := by
  unfold scriptAround
  dsimp only
  rw [← List.drop_drop, List.drop_left' rfl]
  rfl

/-- The height and the headline are pushed as they are. -/
theorem pushesTo_scriptFront_iff (hheight : tmpl.height.toNat < 2 ^ 31) (rest : List UInt8)
    (items : List (List UInt8)) :
    PushesTo (scriptFront tmpl ++ rest)
        (heightData (coinbaseHeight tmpl.height) :: (headlineItems tmpl ++ items)) ↔
      PushesTo rest items := by
  have hwide : coinbaseHeight tmpl.height < 2 ^ 64 :=
    Nat.lt_trans (coinbaseHeight_lt hheight) (by decide)
  unfold scriptFront headlineItems
  rw [List.append_assoc, pushesTo_cons_iff (readPush_appendUNum hwide _)]
  by_cases hnone : (b2bHeadline tmpl).isEmpty
  · rw [if_pos hnone, if_pos hnone, List.nil_append, List.nil_append]
  · have hlen : (b2bHeadline tmpl).length ≤ 255 := by
      unfold b2bHeadline
      split
      · exact Nat.le_trans tmpl.headline_length (by decide)
      · exact Nat.zero_le _
    rw [if_neg hnone, if_neg hnone, List.singleton_append,
      pushesTo_cons_iff (readPush_pushBytes_append hlen _)]

theorem pushesTo_uniqueId (datumActive : Bool) :
    PushesTo (UInt8.ofNat ((uniqueIdWritten tags datumActive).length + 1) :: 0xff ::
      uniqueIdWritten tags datumActive) [0xff :: uniqueIdWritten tags datumActive] := by
  have hlen : (0xff :: uniqueIdWritten tags datumActive).length ≤ 75 := by
    have hid := length_uniqueIdWritten_le tags datumActive
    rw [List.length_cons]
    omega
  apply PushesTo.push _ .nil
  exact (readPush_of_le hlen _).trans (by
    simpa using takeCounted_append (0xff :: uniqueIdWritten tags datumActive) [])

/-- A push that declares what it holds leaves the ID behind it. -/
theorem pushesTo_scriptAround {item : List UInt8} (hitem : item.length ≤ 255)
    (hheight : tmpl.height.toNat < 2 ^ 31) :
    PushesTo (scriptAround tags overrideTag tmpl (pushBytes item.length ++ item)).cb
      (heightData (coinbaseHeight tmpl.height) :: (headlineItems tmpl ++
        [item, 0xff :: uniqueIdWritten tags overrideTag.isSome])) := by
  unfold scriptAround
  dsimp only
  rw [List.append_assoc, pushesTo_scriptFront_iff hheight,
    pushesTo_cons_iff (readPush_pushBytes_append hitem _)]
  exact pushesTo_uniqueId overrideTag.isSome

/-- A push that declares more takes from the ID, which then is not read. -/
theorem not_pushesTo_scriptAround {content item : List UInt8} {k : Nat}
    (hover : content.length < k) (hk : k ≤ 255) (hheight : tmpl.height.toNat < 2 ^ 31) :
    ¬PushesTo (scriptAround tags overrideTag tmpl (pushBytes k ++ content)).cb
      (heightData (coinbaseHeight tmpl.height) :: (headlineItems tmpl ++
        [item, 0xff :: uniqueIdWritten tags overrideTag.isSome])) := by
  unfold scriptAround
  dsimp only
  rw [List.append_assoc, pushesTo_scriptFront_iff hheight]
  intro hpushes
  obtain ⟨rest, htags, hrest⟩ := hpushes.uncons
  obtain ⟨rest', hid, -⟩ := hrest.uncons
  rw [List.append_assoc, readPush_pushBytes hk] at htags
  obtain ⟨-, hlen⟩ := length_of_takeCounted htags
  have hshort := length_of_readPush hid (by simp [uniqueIdWritten])
  simp only [List.length_append, List.length_cons] at hlen hshort
  omega

/-- The script is valid where the tags and the headline leave each other room, and only
    there. -/
theorem writesValidScript_iff (hheight : tmpl.height.toNat < 2 ^ 31) :
    WritesValidScript tags overrideTag tmpl supName ↔
      ScriptRoom tags overrideTag tmpl supName := by
  unfold WritesValidScript
  rw [generateCoinbaseScript_eq]
  by_cases hfits : TagsFit (tagSpace (b2bHeadline tmpl)) (primaryTag tags overrideTag).length
      (secTag tags supName).length
  · obtain ⟨kept, hkept, hitem, hpush⟩ := tagPush_of_tagsFit hfits
    rw [hpush, Option.map_some]
    have hspace := tagSpace_eq (b2bHeadline tmpl)
    have hroom := scriptLength_le_iff (scriptOverhead_le tags overrideTag hheight) hspace hitem
      (hfits.imp_right fun h => by omega)
    have hsize := length_scriptAround tags overrideTag tmpl
      (pushBytes (tagItem (primaryTag tags overrideTag) kept).length ++
        tagItem (primaryTag tags overrideTag) kept)
    rw [List.length_append, length_pushBytes] at hsize
    constructor
    · rintro ⟨script, hscript, hvalid⟩
      have hle := hvalid.returned_le
      rw [hvalid.returned_eq, ← Option.some.inj hscript, hsize, hroom] at hle
      exact ⟨hfits, hle.1, hle.2⟩
    · intro room
      refine ⟨_, rfl, ?_, rfl, ⟨kept, hkept, pushesTo_scriptAround ?_ hheight⟩,
        placeholder_scriptAround _⟩
      · exact Nat.le_trans (Nat.le_of_eq hsize) (hroom.mpr ⟨room.untagged, room.unheaded⟩)
      · omega
  · constructor
    · rintro ⟨script, hscript, hvalid⟩
      cases hpush : tagPush (tagSpace (b2bHeadline tmpl)) (primaryTag tags overrideTag)
          (secTag tags supName) with
      | none =>
        rw [hpush] at hscript
        cases hscript
      | some push =>
        obtain ⟨k, content, rfl, hover, hk⟩ := tagPush_of_not_tagsFit hfits hpush
        rw [hpush, Option.map_some] at hscript
        obtain rfl := Option.some.inj hscript
        obtain ⟨kept, -, hpushes⟩ := hvalid.pushes
        have hspace := tagSpace_eq (b2bHeadline tmpl)
        exact absurd hpushes (not_pushesTo_scriptAround hover (by omega) hheight)
    · intro room
      exact absurd room.fits hfits

end Room

/-- The template of an activation block. -/
def activationTemplate : DatumTemplate where
  height := 966000
  coinbasevalue := 312500000
  sizelimit := 4000000
  weightlimit := 4000000
  previousblockhashBin := List.replicate 32 0
  defaultWitnessCommitment := List.replicate 76 0x30
  headerVersion := 2
  blake2bHeadline := List.replicate 62 0x68
  txnTotalWeight := 0
  txnTotalSize := 0
  coinbasevalue_ne := sampleValue_ne
  witnessCommitment_length := by decide
  headline_length := by decide
  txnTotalSize_lt := noTransactions_lt

def brandedTags : CoinbaseTags where
  miningCoinbaseTagPrimary := List.replicate 20 0x70
  miningCoinbaseTagSecondary := List.replicate 5 0x73
  coinbaseUniqueId := 1
  primeId := 0
  primary_length := by decide
  secondary_length := by decide

theorem writesValidScript_pooled :
    WritesValidScript brandedTags (some (ascii "pool")) activationTemplate [] :=
  (writesValidScript_iff (by decide)).mpr
    ⟨Or.inl (by decide), fun h => absurd h (by decide), fun h => absurd h (by decide)⟩

/-- The primary tag would fit alone; the byte that the removed tag gives back is not
    enough. -/
theorem not_writesValidScript_branded :
    ¬WritesValidScript brandedTags none activationTemplate [] := by
  rintro ⟨script, hscript, -⟩
  have hpanic : generateCoinbaseScript brandedTags none activationTemplate [] = none := rfl
  rw [hpanic] at hscript
  cases hscript

end ChirpGateway
