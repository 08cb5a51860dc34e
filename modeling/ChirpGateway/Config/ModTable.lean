import ChirpGateway.Config.UsernameMods

/-!
# The packed table is faithful

What the second pass of `datum_config_parse_username_mods` stores: one record behind the
other, inside the size of the first pass, and nothing of it overwritten.
-/

namespace ChirpGateway

open Bytes SizedRecords Writes

/-! ## What a record holds -/

/-- The ranges from an entry on, up to the null pointer. -/
def RangesAt (mem : Nat → UInt8) : Nat → List AddrRange → Prop
  | slot, [] => readLe mem slot 8 = 0
  | slot, range :: rest =>
    readLe mem slot 8 ≠ 0 ∧ readLe mem (slot + 8) 8 = range.addr.length ∧
      read mem (readLe mem slot 8) (range.addr.length + 1) = range.addr ++ [0] ∧
      readLe mem (slot + 16) 2 = range.max.toNat ∧ RangesAt mem (slot + rangeSize) rest

/-- The record of a modifier. -/
structure ModAt (mem : Nat → UInt8) (umod : Nat) (mod : UsernameMod) : Prop where
  nameLen : readLe mem (umod + 16) 8 = mod.name.length
  name : read mem (readLe mem (umod + 8) 8) mod.name.length = mod.name
  ranges : RangesAt mem (umod + umodSize) mod.ranges

/-! ## The stores of a record -/

/-- The bytes the addresses take, with their terminators. -/
def addrsLength (ranges : List AddrRange) : Nat :=
  (ranges.map fun range => range.addr.length + 1).sum

@[simp] theorem addrsLength_nil : addrsLength [] = 0 := rfl

@[simp] theorem addrsLength_cons (range : AddrRange) (ranges : List AddrRange) :
    addrsLength (range :: ranges) = range.addr.length + 1 + addrsLength ranges := rfl

/-- The stores for some ranges. -/
def rangesStores : List AddrRange → (slot p : Nat) → List (Write UInt8)
  | [], _, _ => []
  | range :: rest, slot, p =>
    range.stores slot p ++ rangesStores rest (slot + rangeSize) (p + (range.addr.length + 1))

variable {α : Type} {arith : ShareArith α}

theorem fillRanges_eq (entries : List (String × Json)) (sum : α) (slot p : Nat) :
    fillRanges arith entries sum slot p =
      (rangesStores (modRanges arith entries sum) slot p,
        slot + rangeSize * (modRanges arith entries sum).length,
        p + addrsLength (modRanges arith entries sum)) := by
  induction entries generalizing sum slot p with
  | nil => simp [fillRanges, modRanges, rangesStores]
  | cons entry rest ih =>
    obtain ⟨addr, proportion⟩ := entry
    unfold fillRanges modRanges
    by_cases hnull : proportion.isNull = true
    · rw [if_pos hnull, if_pos hnull, ih]
    · rw [if_neg hnull, if_neg hnull]
      cases hmax : arith.nonceMax (arith.add sum (arith.value proportion)) with
      | none => simp only [hmax, ih]
      | some nonceMax =>
        by_cases hlast : nonceMax = 0xffff
        · simp [hmax, hlast, rangesStores]
        · simp only [hmax, hlast, if_false, ih, rangesStores, List.length_cons, addrsLength_cons,
            Nat.mul_succ, Prod.mk.injEq, true_and]
          constructor <;> omega

theorem length_modRanges_le (entries : List (String × Json)) (sum : α) :
    (modRanges arith entries sum).length ≤ entries.length := by
  induction entries generalizing sum with
  | nil => exact Nat.le_refl 0
  | cons entry rest ih =>
    obtain ⟨addr, proportion⟩ := entry
    rw [modRanges, List.length_cons]
    split_ifs with hnull
    · exact Nat.le_succ_of_le (ih sum)
    · cases hmax : arith.nonceMax (arith.add sum (arith.value proportion)) with
      | none => exact Nat.le_succ_of_le (ih _)
      | some nonceMax =>
        have hrest := ih (arith.add sum (arith.value proportion))
        by_cases hlast : nonceMax = 0xffff <;> simp [hlast, hrest]

/-- The stores of the record of a modifier, but for the first size, which the last store
    replaces. `p` is where the strings start. -/
def recordStores (umod p aligned : Nat) (mod : UsernameMod) : List (Write UInt8) :=
  [⟨umod + 16, Wire.leBytes 8 mod.name.length⟩, ⟨p, mod.name⟩,
    ⟨umod + 8, Wire.leBytes 8 p⟩] ++
  (rangesStores mod.ranges (umod + umodSize) (p + mod.name.length) ++
    [⟨umod + umodSize + rangeSize * mod.ranges.length, Wire.leBytes 8 0⟩,
      ⟨umod, Wire.leBytes 8 aligned⟩])

/-! ## They stay apart -/

theorem within_of_mem_stores {range : AddrRange} {slot p : Nat} {w : Write UInt8}
    (hw : w ∈ range.stores slot p) :
    w.Within slot (slot + rangeSize) ∨ w.Within p (p + (range.addr.length + 1)) := by
  simp only [AddrRange.stores, List.mem_cons, List.not_mem_nil, or_false] at hw
  rcases hw with rfl | rfl | rfl | rfl <;>
    simp [Write.Within, Write.stop, rangeSize]

theorem within_of_mem_rangesStores {ranges : List AddrRange} {slot p : Nat} {w : Write UInt8}
    (hw : w ∈ rangesStores ranges slot p) :
    w.Within slot (slot + rangeSize * ranges.length) ∨ w.Within p (p + addrsLength ranges) := by
  induction ranges generalizing slot p with
  | nil => cases hw
  | cons range rest ih =>
    rw [List.length_cons, Nat.mul_succ, addrsLength_cons]
    rcases List.mem_append.mp hw with hw | hw
    · rcases within_of_mem_stores hw with hslot | hp
      · exact .inl (hslot.mono (Nat.le_refl _) (by omega))
      · exact .inr (hp.mono (Nat.le_refl _) (by omega))
    · rcases ih hw with hslot | hp
      · exact .inl (hslot.mono (by omega) (by omega))
      · exact .inr (hp.mono (by omega) (by omega))

theorem apart_stores (range : AddrRange) {slot p : Nat} (h : slot + rangeSize ≤ p) :
    (range.stores slot p).Pairwise Write.Apart := by
  unfold rangeSize at h
  simp [AddrRange.stores, Write.Apart, Write.stop]
  omega

theorem apart_rangesStores (ranges : List AddrRange) {slot p : Nat}
    (h : slot + rangeSize * ranges.length ≤ p) :
    (rangesStores ranges slot p).Pairwise Write.Apart := by
  induction ranges generalizing slot p with
  | nil => exact List.Pairwise.nil
  | cons range rest ih =>
    rw [List.length_cons, Nat.mul_succ] at h
    refine List.pairwise_append.mpr ⟨apart_stores range (by omega), ih (by omega), ?_⟩
    intro v hv w hw
    rcases within_of_mem_stores hv with hv | hv <;>
      rcases within_of_mem_rangesStores hw with hw | hw
    · exact hv.apart hw (Nat.le_refl _)
    · exact hv.apart hw (by omega)
    · exact (hw.apart hv (by omega)).symm
    · exact hv.apart hw (Nat.le_refl _)

section

variable {umod p aligned : Nat} {mod : UsernameMod}

/-- Where a store of a record goes: the fields in front, the ranges, the pointer behind
    them, or the strings. -/
theorem within_of_mem_recordStores {w : Write UInt8} (hw : w ∈ recordStores umod p aligned mod)
    (hp : umod + umodSize + rangeSize * (mod.ranges.length + 1) ≤ p) :
    w.Within umod (p + mod.name.length + addrsLength mod.ranges) := by
  unfold umodSize at hp
  rw [Nat.mul_succ] at hp
  simp only [recordStores, List.mem_append, List.mem_cons, List.not_mem_nil, or_false] at hw
  rcases hw with (rfl | rfl | rfl) | hw | rfl | rfl
  · simp [Write.Within, Write.stop]; omega
  · simp [Write.Within, Write.stop]; omega
  · simp [Write.Within, Write.stop]; omega
  · rcases within_of_mem_rangesStores hw with hslot | hstring
    · exact hslot.mono (by omega) (by unfold umodSize; omega)
    · exact hstring.mono (by omega) (by omega)
  · simp [Write.Within, Write.stop, umodSize]; unfold rangeSize at *; omega
  · simp [Write.Within, Write.stop]; omega

theorem apart_recordStores
    (hp : umod + umodSize + rangeSize * (mod.ranges.length + 1) ≤ p) :
    (recordStores umod p aligned mod).Pairwise Write.Apart := by
  unfold rangeSize umodSize at hp
  have hranges : ∀ w ∈ rangesStores mod.ranges (umod + umodSize) (p + mod.name.length),
      w.Within (umod + 24) (umod + 24 + 24 * mod.ranges.length) ∨
        w.Within (p + mod.name.length) (p + mod.name.length + addrsLength mod.ranges) :=
    fun _ => within_of_mem_rangesStores
  refine List.pairwise_append.mpr ⟨?_, List.pairwise_append.mpr ⟨?_, ?_, ?_⟩, ?_⟩
  · simp [Write.Apart, Write.stop]
    omega
  · exact apart_rangesStores mod.ranges (by unfold rangeSize umodSize; omega)
  · simp [Write.Apart, Write.stop, umodSize, rangeSize]
    omega
  · intro v hv w hw
    have hv := hranges v hv
    simp only [List.mem_cons, List.not_mem_nil, or_false] at hw
    unfold Write.Within at hv
    rcases hw with rfl | rfl <;>
      simp only [Write.Apart, Write.stop, umodSize, rangeSize, Wire.length_leBytes] at hv ⊢ <;>
      omega
  · intro v hv w hw
    simp only [List.mem_cons, List.not_mem_nil, or_false] at hv
    rcases List.mem_append.mp hw with hw | hw
    · have hw := hranges w hw
      unfold Write.Within at hw
      rcases hv with rfl | rfl | rfl <;>
        simp only [Write.Apart, Write.stop, Wire.length_leBytes] at hw ⊢ <;> omega
    · simp only [List.mem_cons, List.not_mem_nil, or_false] at hw
      rcases hv with rfl | rfl | rfl <;> rcases hw with rfl | rfl <;>
        simp only [Write.Apart, Write.stop, umodSize, rangeSize, Wire.length_leBytes] <;> omega

end

/-! ## What they hold -/

theorem rangesAt_of_holds {mem : Nat → UInt8} {ranges : List AddrRange} {slot p : Nat}
    (hholds : ∀ w ∈ rangesStores ranges slot p, Holds mem w)
    (hlast : Holds mem ⟨slot + rangeSize * ranges.length, Wire.leBytes 8 0⟩)
    (hp : 0 < p) (hstop : p + addrsLength ranges ≤ 2 ^ 64) : RangesAt mem slot ranges := by
  induction ranges generalizing slot p with
  | nil => exact readLe_of_holds hlast (by norm_num)
  | cons range rest ih =>
    obtain ⟨hstores, hrest⟩ := List.forall_mem_append.mp hholds
    rw [addrsLength_cons] at hstop
    simp only [AddrRange.stores, List.forall_mem_cons] at hstores
    obtain ⟨hlen, haddr, hptr, hmax, -⟩ := hstores
    have hmaxLt := range.max.toNat_lt
    have hptr := readLe_of_holds hptr (by norm_num; omega)
    have haddr := haddr.read
    rw [List.length_append, List.length_singleton] at haddr
    rw [RangesAt, hptr]
    refine ⟨by omega, readLe_of_holds hlen (by norm_num; omega), haddr,
      readLe_of_holds hmax (by norm_num; omega), ih hrest ?_ (by omega) (by omega)⟩
    rw [List.length_cons, Nat.mul_succ] at hlast
    rwa [Nat.add_assoc slot, Nat.add_comm rangeSize]

theorem modAt_of_holds {mem : Nat → UInt8} {umod p aligned : Nat} {mod : UsernameMod}
    (hholds : ∀ w ∈ recordStores umod p aligned mod, Holds mem w) (hp : 0 < p)
    (hstop : p + mod.name.length + addrsLength mod.ranges < 2 ^ 64) (haligned : aligned < 2 ^ 64) :
    ModAt mem umod mod ∧ readLe mem umod 8 = aligned := by
  obtain ⟨hfront, hrest⟩ := List.forall_mem_append.mp hholds
  obtain ⟨hranges, hback⟩ := List.forall_mem_append.mp hrest
  simp only [List.forall_mem_cons] at hfront hback
  obtain ⟨hlen, hname, hptr, -⟩ := hfront
  obtain ⟨hlast, hsize, -⟩ := hback
  have hptr := readLe_of_holds hptr (by norm_num; omega)
  refine ⟨⟨readLe_of_holds hlen (by norm_num; omega), ?_, ?_⟩,
    readLe_of_holds hsize (by norm_num; omega)⟩
  · rw [hptr]
    exact hname.read
  · exact rangesAt_of_holds hranges hlast (by omega) (by omega)

/-! ## The size of the first pass -/

theorem datumAlignSz_bounds (minSz : Nat) :
    minSz ≤ datumAlignSz minSz umodAlign ∧ datumAlignSz minSz umodAlign ≤ minSz + 7 := by
  unfold datumAlignSz umodAlign
  omega

/-- The addresses the first pass makes room for include those of the ranges. -/
theorem addrsLength_le_of_addrsSize {entries : List (String × Json)} {sz total : Nat}
    (h : addrsSize arith entries sz = some total) (sum : α) :
    sz + addrsLength (modRanges arith entries sum) ≤ total := by
  induction entries generalizing sz sum with
  | nil => exact Nat.le_of_eq (Option.some.inj h)
  | cons entry rest ih =>
    obtain ⟨addr, proportion⟩ := entry
    rw [addrsSize] at h
    rw [modRanges]
    split_ifs at h with hnull hnumber hnegative
    · rw [if_pos hnull]
      exact ih h sum
    · rw [if_neg hnull]
      have hrest := ih h (arith.add sum (arith.value proportion))
      cases hmax : arith.nonceMax (arith.add sum (arith.value proportion)) with
      | none =>
        dsimp only
        omega
      | some nonceMax =>
        simp only [addrsLength_cons]
        split_ifs with hlast
        · rw [addrsLength_nil]
          omega
        · omega

/-- A proportion the first pass takes. -/
def ProportionTaken (arith : ShareArith α) (proportion : Json) : Prop :=
  proportion.isNull = true ∨
    proportion.isNumber = true ∧ arith.negative (arith.value proportion) = false

theorem addrsSize_isSome_iff (entries : List (String × Json)) (sz : Nat) :
    (addrsSize arith entries sz).isSome = true ↔
      ∀ entry ∈ entries, ProportionTaken arith entry.2 := by
  induction entries generalizing sz with
  | nil => simp [addrsSize]
  | cons entry rest ih =>
    obtain ⟨addr, proportion⟩ := entry
    rw [addrsSize, List.forall_mem_cons, ProportionTaken]
    cases hnull : proportion.isNull with
    | true => simp [ih]
    | false =>
      cases hnumber : proportion.isNumber with
      | false => simp
      | true => cases hnegative : arith.negative (arith.value proportion) <;> simp [ih]

/-- Modifiers that are null or objects of such proportions. -/
def ModsTaken (arith : ShareArith α) (members : List (String × Json)) : Prop :=
  ∀ member ∈ members, member.2.isNull = true ∨ member.2.isObject = true ∧
    ∀ entry ∈ member.2.members, ProportionTaken arith entry.2

/-- The first pass takes a document of such modifiers, and no other. -/
theorem modsSize_isSome_iff (members : List (String × Json)) (sz : Nat) (one : Bool) :
    (modsSize arith members sz one).isSome = true ↔ ModsTaken arith members := by
  induction members generalizing sz one with
  | nil => simp [modsSize, ModsTaken]
  | cons member rest ih =>
    obtain ⟨modname, moddefn⟩ := member
    unfold ModsTaken at ih ⊢
    rw [modsSize, List.forall_mem_cons]
    cases hnull : moddefn.isNull with
    | true => simp [ih]
    | false =>
      cases hobject : moddefn.isObject with
      | false => simp
      | true =>
        rw [← addrsSize_isSome_iff moddefn.members
          (sz + ((keyBytes modname).length + 1 + rangeSize * (moddefn.members.length + 1)))]
        cases addrsSize arith moddefn.members
            (sz + ((keyBytes modname).length + 1 + rangeSize * (moddefn.members.length + 1))) with
        | none => simp
        | some next => simp [ih]

/-- What a member that is not null adds to the size. -/
theorem modsSize_cons {modname : String} {moddefn : Json} {rest : List (String × Json)}
    {sz total : Nat} {one atLeastOneMod : Bool} (hnull : moddefn.isNull ≠ true)
    (h : modsSize arith ((modname, moddefn) :: rest) sz one = some (total, atLeastOneMod)) :
    ∃ next, modsSize arith rest next true = some (total, atLeastOneMod) ∧
      sz + (keyBytes modname).length + 1 + rangeSize * (moddefn.members.length + 1) +
        addrsLength (usernameMod arith modname moddefn).ranges ≤ next := by
  rw [modsSize, if_neg hnull] at h
  split_ifs at h with hobject
  obtain ⟨next, hnext, hrest⟩ := Option.bind_eq_some_iff.mp h
  have hlength := addrsLength_le_of_addrsSize hnext arith.zero
  refine ⟨next, hrest, ?_⟩
  unfold usernameMod
  dsimp only
  omega

theorem le_of_modsSize {members : List (String × Json)} {sz total : Nat} {one atLeastOneMod : Bool}
    (h : modsSize arith members sz one = some (total, atLeastOneMod)) : sz ≤ total := by
  induction members generalizing sz one with
  | nil => exact Nat.le_of_eq (congrArg Prod.fst (Option.some.inj h))
  | cons member rest ih =>
    obtain ⟨modname, moddefn⟩ := member
    by_cases hnull : moddefn.isNull = true
    · rw [modsSize, if_pos hnull] at h
      exact ih h
    · obtain ⟨next, hrest, hnext⟩ := modsSize_cons hnull h
      have htotal := ih hrest
      omega

/-- Whether there is a modifier is what the first pass says. -/
theorem atLeastOneMod_eq {members : List (String × Json)} {sz total : Nat}
    {one atLeastOneMod : Bool}
    (h : modsSize arith members sz one = some (total, atLeastOneMod)) :
    atLeastOneMod = (one || !(usernameMods arith members).isEmpty) := by
  induction members generalizing sz one with
  | nil =>
    obtain rfl : one = atLeastOneMod := congrArg Prod.snd (Option.some.inj h)
    simp [usernameMods]
  | cons member rest ih =>
    obtain ⟨modname, moddefn⟩ := member
    by_cases hnull : moddefn.isNull = true
    · rw [modsSize, if_pos hnull] at h
      rw [usernameMods, if_pos hnull]
      exact ih h
    · obtain ⟨next, hrest, -⟩ := modsSize_cons hnull h
      rw [usernameMods, if_neg hnull, ih hrest]
      simp

/-! ## The second pass -/

/-- The stores for a member that is not null, where the strings stay inside the block. -/
theorem fillMods_cons {modname : String} {moddefn : Json} (rest : List (String × Json))
    {umod sz p last aligned stop : Nat} (hnull : moddefn.isNull ≠ true)
    (hsz : sz = umodSize + rangeSize * (moddefn.members.length + 1)) (hp : p = umod + sz)
    (hlast : last = p + (keyBytes modname).length +
      addrsLength (usernameMod arith modname moddefn).ranges)
    (haligned : aligned = datumAlignSz (last - umod) umodAlign) (hstop : last ≤ stop) :
    fillMods arith stop ((modname, moddefn) :: rest) umod =
      (fillMods arith stop rest (umod + aligned)).map fun more =>
        ⟨umod, Wire.leBytes 8 sz⟩ ::
          (recordStores umod p aligned (usernameMod arith modname moddefn) ++ more) := by
  have hlength : (modRanges arith moddefn.members arith.zero).length ≤ moddefn.members.length :=
    length_modRanges_le moddefn.members arith.zero
  unfold usernameMod at hlast ⊢
  subst hsz hp hlast haligned
  rw [fillMods, if_neg hnull]
  simp only [fillRanges_eq]
  rw [if_pos ⟨by unfold rangeSize; omega, hstop⟩]
  simp [recordStores]

/-- The table from a place on: the walk from there meets the records of the modifiers. -/
def TableAt (mem : Nat → UInt8) (p : Nat) (mods : List UsernameMod) : Prop :=
  ∃ places, Visits (datumUsernameModsNext mem) (unlessEmpty (fun umod => readLe mem umod 8) p)
    places ∧ List.Forall₂ (ModAt mem) places mods

theorem tableAt_nil {mem : Nat → UInt8} {p : Nat} (h : readLe mem p 8 = 0) :
    TableAt mem p [] := by
  refine ⟨[], ?_, List.Forall₂.nil⟩
  simp [unlessEmpty, h, Visits.done]

/-- A record in front of a table that starts where its size says. -/
theorem TableAt.cons {mem : Nat → UInt8} {umod aligned : Nat} {mod : UsernameMod}
    {mods : List UsernameMod} (hmod : ModAt mem umod mod) (hsize : readLe mem umod 8 = aligned)
    (haligned : aligned ≠ 0) (h : TableAt mem (umod + aligned) mods) :
    TableAt mem umod (mod :: mods) := by
  obtain ⟨places, hvisits, hplaces⟩ := h
  refine ⟨umod :: places, ?_, List.Forall₂.cons hmod hplaces⟩
  rw [unlessEmpty, if_pos (hsize ▸ haligned)]
  exact Visits.step (by rwa [datumUsernameModsNext, hsize])

/-- What one turn stores is a record in front of what the later turns store: only the first
    size is replaced. -/
theorem tableAt_record {umod p aligned stop : Nat} {mod : UsernameMod} {mods : List UsernameMod}
    (first : Write UInt8) {more : List (Write UInt8)}
    (hp : umod + umodSize + rangeSize * (mod.ranges.length + 1) ≤ p)
    (hlast : p + mod.name.length + addrsLength mod.ranges ≤ umod + aligned)
    (hstop : umod + aligned < 2 ^ 64) (hmore : ∀ w ∈ more, w.Within (umod + aligned) stop)
    (htable : ∀ mem, TableAt (storeAll mem more) (umod + aligned) mods) (mem : Nat → UInt8) :
    TableAt (storeAll mem (first :: (recordStores umod p aligned mod ++ more))) umod
      (mod :: mods) := by
  show TableAt (storeAll (store mem first) (recordStores umod p aligned mod ++ more)) umod
    (mod :: mods)
  rw [storeAll_append]
  have hholds : ∀ w ∈ recordStores umod p aligned mod,
      Holds (storeAll (storeAll (store mem first) (recordStores umod p aligned mod)) more) w := by
    intro w hw
    apply (holds_storeAll _ (apart_recordStores hp) hw).storeAll
    exact fun v hv => (within_of_mem_recordStores hw hp).apart (hmore v hv) hlast
  have hpos : umodSize = 24 := rfl
  obtain ⟨hmod, hsize⟩ := modAt_of_holds hholds (by omega) (by omega) (by omega)
  exact TableAt.cons hmod hsize (by omega) (htable _)

/-- The second pass, given a block with room for what the first one counted: all its stores
    are inside, and the table is there afterwards. -/
theorem fillMods_spec {members : List (String × Json)} {sz total p stop : Nat}
    {one atLeastOneMod : Bool}
    (hsize : modsSize arith members sz one = some (total, atLeastOneMod))
    (hroom : p + (umodSize + umodAlign - 1) * (members.length + 1) + total ≤ stop + sz)
    (hp : 0 < p) (hstop : stop ≤ 2 ^ 64) :
    ∃ writes, fillMods arith stop members p = some writes ∧
      (∀ w ∈ writes, w.Within p stop) ∧
      ∀ mem, TableAt (storeAll mem writes) p (usernameMods arith members) := by
  have hslack : umodSize + umodAlign - 1 = 31 := rfl
  rw [hslack] at hroom
  induction members generalizing sz one p with
  | nil =>
    obtain rfl : sz = total := congrArg Prod.fst (Option.some.inj hsize)
    refine ⟨_, rfl, ?_, ?_⟩
    · simp [Write.Within, Write.stop] at hroom ⊢
      omega
    · intro mem
      exact tableAt_nil (readLe_of_holds (holds_store mem _) (by norm_num))
  | cons member rest ih =>
    obtain ⟨modname, moddefn⟩ := member
    rw [List.length_cons, Nat.mul_succ] at hroom
    by_cases hnull : moddefn.isNull = true
    · rw [modsSize, if_pos hnull] at hsize
      rw [fillMods, usernameMods, if_pos hnull, if_pos hnull]
      exact ih hsize (by omega) hp
    · obtain ⟨next, hrest, hnext⟩ := modsSize_cons hnull hsize
      have htotal := le_of_modsSize hrest
      rw [usernameMods, if_neg hnull]
      have hlength : (usernameMod arith modname moddefn).ranges.length ≤ moddefn.members.length :=
        length_modRanges_le moddefn.members arith.zero
      generalize hsz : umodSize + rangeSize * (moddefn.members.length + 1) = recSize
      generalize hlast : p + recSize + (keyBytes modname).length +
        addrsLength (usernameMod arith modname moddefn).ranges = last
      obtain ⟨hlow, hhigh⟩ := datumAlignSz_bounds (last - p)
      generalize haligned : datumAlignSz (last - p) umodAlign = aligned at hlow hhigh
      have hheader : umodSize = 24 := rfl
      have hentry : rangeSize = 24 := rfl
      have hrec : 24 + 24 * (moddefn.members.length + 1) = recSize := hsz
      rw [hentry] at hnext
      have hnextRoom : p + aligned + 31 * (rest.length + 1) + total ≤ stop + next := by omega
      obtain ⟨more, hfill, hwithin, htable⟩ := ih hrest hnextRoom (by omega)
      have hslots : p + umodSize +
          rangeSize * ((usernameMod arith modname moddefn).ranges.length + 1) ≤ p + recSize := by
        rw [hheader, hentry]
        omega
      have hend : p + recSize + (usernameMod arith modname moddefn).name.length +
          addrsLength (usernameMod arith modname moddefn).ranges = last := hlast
      have hstores := fillMods_cons rest hnull hsz.symm rfl hlast.symm haligned.symm
        (show last ≤ stop by omega)
      rw [hfill, Option.map_some] at hstores
      refine ⟨_, hstores, ?_, tableAt_record _ hslots (by omega) (by omega) hwithin htable⟩
      rw [List.forall_mem_cons, List.forall_mem_append]
      refine ⟨?_, fun w hw => ?_, fun w hw => (hwithin w hw).mono (by omega) (Nat.le_refl _)⟩
      · simp [Write.Within, Write.stop]
        omega
      · exact (within_of_mem_recordStores hw hslots).mono (Nat.le_refl _) (by omega)

/-! ## Finding a modifier -/

/-- The first record whose modifier has exactly that name. -/
def foundMod (places : List Nat) (mods : List UsernameMod) (modname : List UInt8) : Option Nat :=
  ((places.zip mods).find? fun entry => entry.2.name == modname).map Prod.fst

theorem usernameMods_eq (members : List (String × Json)) :
    usernameMods arith members =
      (members.filter fun member => !member.2.isNull).map fun member =>
        usernameMod arith member.1 member.2 := by
  induction members with
  | nil => rfl
  | cons member rest ih =>
    obtain ⟨modname, moddefn⟩ := member
    rw [usernameMods, ih, List.filter_cons]
    by_cases hnull : moddefn.isNull = true <;> simp [hnull]

theorem zero_notMem_name {members : List (String × Json)} {mod : UsernameMod}
    (hmod : mod ∈ usernameMods arith members) : 0 ∉ mod.name := by
  rw [usernameMods_eq] at hmod
  obtain ⟨member, -, rfl⟩ := List.mem_map.mp hmod
  exact Buffer.zero_notMem_cString _

/-- A requested name with a zero byte in it does not match: `strncmp` stops there, and the
    name in the record goes on. -/
theorem modNameMatches_eq {mem : Nat → UInt8} {umod : Nat} {mod : UsernameMod}
    (hmod : ModAt mem umod mod) (hname : 0 ∉ mod.name) (modname : List UInt8) :
    modNameMatches mem modname umod = (mod.name == modname) := by
  unfold modNameMatches
  rw [hmod.nameLen]
  by_cases hlen : modname.length = mod.name.length
  · rw [hlen, hmod.name, strncmpEq, Buffer.cString_eq_self hname, List.take_length,
      beq_self_eq_true, Bool.true_and, Bool.eq_iff_iff, beq_iff_eq, beq_iff_eq]
    constructor
    · intro h
      have hprefix : (Buffer.cString modname).take mod.name.length <+: modname :=
        (List.take_prefix _ _).trans (List.takeWhile_prefix _)
      rw [h] at hprefix
      exact hprefix.eq_of_length hlen.symm
    · rintro rfl
      rw [Buffer.cString_eq_self hname, List.take_length]
  · have hne : mod.name ≠ modname := fun h => hlen (congrArg List.length h).symm
    rw [beq_false_of_ne hne, beq_false_of_ne hlen, Bool.false_and]

theorem find?_modNameMatches {mem : Nat → UInt8} {places : List Nat} {mods : List UsernameMod}
    (hplaces : List.Forall₂ (ModAt mem) places mods) (hnames : ∀ mod ∈ mods, 0 ∉ mod.name)
    (modname : List UInt8) :
    places.find? (modNameMatches mem modname) = foundMod places mods modname := by
  induction hplaces with
  | nil => rfl
  | @cons umod mod places mods hmod _ ih =>
    obtain ⟨hname, hnames⟩ := List.forall_mem_cons.mp hnames
    have hrest := ih hnames
    unfold foundMod at hrest ⊢
    rw [List.zip_cons_cons, List.find?_cons, List.find?_cons, modNameMatches_eq hmod hname]
    cases mod.name == modname with
    | true => rfl
    | false => exact hrest

/-! ## The whole call -/

/-- The table as the rest of the gateway meets it. -/
structure FaithfulTable (mem : Nat → UInt8) (umods : Option Nat) (mods : List UsernameMod)
    (places : List Nat) : Prop where
  visits : Visits (datumUsernameModsNext mem) umods places
  records : List.Forall₂ (ModAt mem) places mods
  finds : ∀ modname fuel, places.length ≤ fuel →
    datumUsernameModsFind mem modname fuel umods = some (foundMod places mods modname)

/-- Where a call that returns 1 stored something: nowhere, or inside the block of the size
    it computed. -/
def StoresInside (arith : ShareArith α) (malloc : Nat → Option Nat) (item : Json)
    (before after : ModsState) : Prop :=
  after.umods = none ∧ after.mem = before.mem ∨
    ∃ size base writes, tableSize arith item = some (size, true) ∧ malloc size = some base ∧
      fillMods arith (base + size) item.members base = some writes ∧
      after.umods = some base ∧ after.mem = storeAll before.mem writes ∧
      ∀ w ∈ writes, w.Within base (base + size)

theorem faithfulTable_nil (mem : Nat → UInt8) : FaithfulTable mem none [] [] where
  visits := Visits.done
  records := List.Forall₂.nil
  finds _ fuel _ := by cases fuel <;> rfl

theorem TableAt.faithful {mem : Nat → UInt8} {base : Nat} {members : List (String × Json)}
    (h : TableAt mem base (usernameMods arith members))
    (hsome : usernameMods arith members ≠ []) :
    ∃ places, FaithfulTable mem (some base) (usernameMods arith members) places := by
  obtain ⟨places, hvisits, hplaces⟩ := h
  have hne : places ≠ [] := by
    rintro rfl
    exact hsome (List.forall₂_nil_left_iff.mp hplaces)
  rw [unlessEmpty_eq_of_visits hvisits hne] at hvisits
  refine ⟨places, hvisits, hplaces, fun modname fuel hfuel => ?_⟩
  rw [datumUsernameModsFind, search_of_visits hvisits _ hfuel,
    find?_modNameMatches hplaces fun _ => zero_notMem_name]

/-- A call that gets its block. -/
theorem parse_of_block {malloc : Nat → Option Nat} {item : Json} {size base : Nat}
    (hsize : tableSize arith item = some (size, true)) (hblock : malloc size = some base)
    (hbase : 0 < base) (hstop : base + size ≤ 2 ^ 64) (s : ModsState) :
    ∃ writes places, fillMods arith (base + size) item.members base = some writes ∧
      (∀ w ∈ writes, w.Within base (base + size)) ∧
      datumConfigParseUsernameMods arith malloc s item =
        .parsed { s.free with umods := some base, mem := storeAll s.mem writes } ∧
      FaithfulTable (storeAll s.mem writes) (some base) (usernameMods arith item.members)
        places := by
  have hmods : usernameMods arith item.members ≠ [] := by
    simpa using atLeastOneMod_eq hsize
  have hmembers : item.members.length ≠ 0 := by
    intro hempty
    rw [List.eq_nil_of_length_eq_zero hempty] at hmods
    exact hmods rfl
  obtain ⟨writes, hfill, hwithin, htable⟩ :=
    fillMods_spec hsize (Nat.le_of_eq (by omega)) hbase hstop
  obtain ⟨places, hfaithful⟩ := (htable s.mem).faithful hmods
  refine ⟨writes, places, hfill, hwithin, ?_, hfaithful⟩
  simp only [datumConfigParseUsernameMods, if_neg hmembers, hsize, hblock, hfill]

/-- A document the first pass takes is parsed where there is memory for its table. -/
theorem parsed_of_modsTaken {malloc : Nat → Option Nat}
    (hmalloc : ∀ size base, malloc size = some base → 0 < base ∧ base + size ≤ 2 ^ 64)
    {members : List (String × Json)} (htaken : ModsTaken arith members)
    (hmemory : ∀ size, tableSize arith (.object members) = some (size, true) →
      (malloc size).isSome = true)
    (s : ModsState) :
    ∃ s', datumConfigParseUsernameMods arith malloc s (.object members) = .parsed s' := by
  by_cases hempty : (Json.object members).members.length = 0
  · refine ⟨{ s.free with umods := none }, ?_⟩
    rw [datumConfigParseUsernameMods, if_pos hempty, if_pos (.inr rfl)]
  · obtain ⟨⟨size, atLeastOneMod⟩, hsize⟩ :
        ∃ counted, tableSize arith (.object members) = some counted :=
      Option.isSome_iff_exists.mp ((modsSize_isSome_iff members _ _).mpr htaken)
    cases atLeastOneMod with
    | false =>
      refine ⟨{ s.free with umods := none }, ?_⟩
      rw [datumConfigParseUsernameMods, if_neg hempty, hsize]
    | true =>
      obtain ⟨base, hblock⟩ := Option.isSome_iff_exists.mp (hmemory size hsize)
      obtain ⟨hbase, hstop⟩ := hmalloc size base hblock
      obtain ⟨writes, places, -, -, hparsed, -⟩ := parse_of_block hsize hblock hbase hstop s
      exact ⟨_, hparsed⟩

/-- A call that refuses the document leaves everything as it was. One that returns 1 passes
    both assertions, stores inside its block only, and leaves a table that is walked over the
    modifiers that are not null, in their order, each as the document has it. -/
theorem datumConfigParseUsernameMods_spec (arith : ShareArith α) {malloc : Nat → Option Nat}
    (hmalloc : ∀ size base, malloc size = some base → 0 < base ∧ base + size ≤ 2 ^ 64)
    (s : ModsState) (item : Json) :
    datumConfigParseUsernameMods arith malloc s item = .refused s ∨
    (datumConfigParseUsernameMods arith malloc s item = .aborted ∧
      ∃ size, tableSize arith item = some (size, true) ∧ malloc size = none) ∨
    ∃ s' places, datumConfigParseUsernameMods arith malloc s item = .parsed s' ∧
      StoresInside arith malloc item s s' ∧
      FaithfulTable s'.mem s'.umods (usernameMods arith item.members) places := by
  by_cases hempty : item.members.length = 0
  · rw [datumConfigParseUsernameMods, if_pos hempty, List.eq_nil_of_length_eq_zero hempty]
    split_ifs with hkind
    · exact .inr (.inr ⟨_, [], rfl, .inl ⟨rfl, rfl⟩, faithfulTable_nil _⟩)
    · exact .inl rfl
  · cases hsize : tableSize arith item with
    | none =>
      left
      simp only [datumConfigParseUsernameMods, if_neg hempty, hsize]
    | some counted =>
      obtain ⟨size, atLeastOneMod⟩ := counted
      cases atLeastOneMod with
      | false =>
        have hnil : usernameMods arith item.members = [] := by
          simpa using atLeastOneMod_eq hsize
        simp only [datumConfigParseUsernameMods, if_neg hempty, hsize, hnil]
        exact .inr (.inr ⟨_, [], rfl, .inl ⟨rfl, rfl⟩, faithfulTable_nil _⟩)
      | true =>
        cases hblock : malloc size with
        | none =>
          refine .inr (.inl ⟨?_, size, rfl, hblock⟩)
          simp only [datumConfigParseUsernameMods, if_neg hempty, hsize, hblock]
        | some base =>
          obtain ⟨hbase, hstop⟩ := hmalloc size base hblock
          obtain ⟨writes, places, hfill, hwithin, hparsed, hfaithful⟩ :=
            parse_of_block hsize hblock hbase hstop s
          exact .inr (.inr ⟨_, places, hparsed,
            .inr ⟨size, base, writes, hsize, hblock, hfill, rfl, rfl, hwithin⟩, hfaithful⟩)

/-- A document with a modifier, one that is null, and an address whose share is zero. -/
def sampleMods : Json :=
  .object [("x", .object [("a", .integer 0), ("b", .real (1 / 2))]), ("y", .null)]

/-- An allocator with one block to give. -/
def oneBlock (size : Nat) : Option Nat := if size ≤ 0x10000 then some 0x1000 else none

theorem oneBlock_inside (size base : Nat) (h : oneBlock size = some base) :
    0 < base ∧ base + size ≤ 2 ^ 64 := by
  unfold oneBlock at h
  split_ifs at h with hsize
  cases h
  omega

theorem sampleMods_table :
    ∃ s' places,
      datumConfigParseUsernameMods exactArith oneBlock ⟨none, fun _ => 0, []⟩ sampleMods =
        .parsed s' ∧
      FaithfulTable s'.mem s'.umods (usernameMods exactArith sampleMods.members) places := by
  have hsize : tableSize exactArith sampleMods = some (171, true) := by decide +kernel
  have hblock : oneBlock 171 = some 0x1000 := rfl
  rcases datumConfigParseUsernameMods_spec exactArith oneBlock_inside ⟨none, fun _ => 0, []⟩
    sampleMods with h | ⟨-, size, hcounted, hnone⟩ | ⟨s', places, h, -, htable⟩
  · rw [datumConfigParseUsernameMods, if_neg (by decide), hsize] at h
    dsimp only at h
    rw [hblock] at h
    dsimp only at h
    split at h <;> cases h
  · rw [hsize] at hcounted
    cases hcounted
    cases hnone
  · exact ⟨s', places, h, htable⟩

end ChirpGateway
