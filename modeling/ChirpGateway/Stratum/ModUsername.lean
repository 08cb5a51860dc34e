import ChirpGateway.Config.ModTable
import ChirpGateway.Lib.Thresholds
import ChirpGateway.Lib.Within

/-!
# Which address a share goes to

The lookup at the start of `datum_stratum_mod_username` (`datum_stratum.c:939-948`), with
`share_rnd` the first two bytes of the share's hash (`datum_stratum.c:1365-1373`), how
many values of it each address of a modifier gets, and the username that is put together
from the choice (`datum_stratum.c:950-970`).
-/

namespace ChirpGateway

open Bytes SizedRecords Writes Thresholds Within

/-! ## The lookup -/

/-- The loop over the ranges, for as many turns as the fuel allows: the entry it stops at,
    nothing at the null pointer behind them. -/
def chooseRange (mem : Nat → UInt8) (shareRnd : UInt16) : (fuel range : Nat) →
    Option (Option Nat)
  | 0, _ => none
  | fuel + 1, range =>
    if readLe mem range 8 = 0 then some none
    else if shareRnd.toNat ≤ readLe mem (range + 16) 2 then some (some range)
    else chooseRange mem shareRnd fuel (range + rangeSize)

/-- What the username of a share is replaced by. -/
inductive UsernameChoice where
  /-- No such modifier, and the username stays. -/
  | unchanged
  /-- `datum_config.mining_pool_address`. -/
  | pool
  /-- The address of this entry. -/
  | range (place : Nat)
deriving DecidableEq

/-- The lookup of `datum_stratum_mod_username` in `datum_config.stratum_username_mod`. -/
def chooseUsername (mem : Nat → UInt8) (umods : Option Nat) (fuel : Nat) (shareRnd : UInt16)
    (modname : List UInt8) : Option UsernameChoice :=
  (datumUsernameModsFind mem modname fuel umods).bind fun
    | none => some .unchanged
    | some umod =>
      (chooseRange mem shareRnd fuel (umod + umodSize)).map fun
        | none => .pool
        | some range => .range range

/-- The address of the entry that is chosen. -/
def UsernameChoice.addr (mem : Nat → UInt8) : UsernameChoice → Option (List UInt8)
  | .range place => some (read mem (readLe mem place 8) (readLe mem (place + 8) 8))
  | _ => none

/-! ## The username -/

/-- `sizeof(username_buf)`. -/
def usernameBufSize : Nat := 0x100

/-- What the pointer that comes back points to. -/
inductive ModUsername where
  /-- `username_s`. -/
  | username
  /-- `datum_config.mining_pool_address`. -/
  | poolAddress
  /-- `range->addr`. -/
  | address (place : Nat)
  /-- `username_buf`, with what was written to it. -/
  | buffer (written : List UInt8)

/-- The rest of `datum_stratum_mod_username`, for a tilde at this place of the username.
    There is nothing where it reads outside the username or writes outside the buffer. -/
def modUsernameWithin (mem : Nat → UInt8) (username : List UInt8) (tilde : Nat) :
    UsernameChoice → Option ModUsername
  | .unchanged => some .username
  | .pool => some .poolAddress
  | .range range =>
    let addrLen := readLe mem (range + 8) 8
    if addrLen = 0 then
      let len := if tilde ≥ usernameBufSize then usernameBufSize - 1 else tilde
      (span (username ++ [0]) 0 len).bind fun front =>
      (put usernameBufSize [] front).bind fun written =>
      (put usernameBufSize written [0]).map .buffer
    else
      match Buffer.strchr username 0x2e with
      | none => some (.address (readLe mem range 8))
      | some period =>
        if addrLen ≥ usernameBufSize then some (.address (readLe mem range 8))
        else
          -- A difference below zero is a `size_t` above every other length.
          let len := if period ≤ tilde then tilde - period else 2 ^ 64 - (period - tilde)
          let maxLen := usernameBufSize - addrLen - 1
          let len := if len > maxLen then maxLen else len
          (put usernameBufSize [] (read mem (readLe mem range 8) addrLen)).bind fun written =>
          (span (username ++ [0]) period len).bind fun suffix =>
          (put usernameBufSize written suffix).bind fun written =>
          (put usernameBufSize written [0]).map .buffer

/-- The modifier of `client_mining_submit`: what follows the first tilde is the name. The
    outer option is for the turns of the lookup. -/
def submitUsername (mem : Nat → UInt8) (umods : Option Nat) (fuel : Nat) (shareRnd : UInt16)
    (username : List UInt8) : Option (Option ModUsername) :=
  if umods.isNone then some (some .username)
  else
    match Buffer.strchr username 0x7e with
    | none => some (some .username)
    | some tilde =>
      (chooseUsername mem umods fuel shareRnd (username.drop (tilde + 1))).map
        (modUsernameWithin mem username tilde)

/-! ## Over the table -/

/-- An entry of a table, with its address. -/
structure RangeAt (mem : Nat → UInt8) (place : Nat) (addr : List UInt8) : Prop where
  addrLen : readLe mem (place + 8) 8 = addr.length
  addr : read mem (readLe mem place 8) (addr.length + 1) = addr ++ [0]

theorem RangeAt.read {mem : Nat → UInt8} {place : Nat} {addr : List UInt8}
    (h : RangeAt mem place addr) : read mem (readLe mem place 8) addr.length = addr := by
  have haddr := h.addr
  rw [read_succ] at haddr
  exact (List.append_inj' haddr rfl).1

/-- The loop stops at the entry of the first range that reaches up to `share_rnd`. -/
theorem chooseRange_eq {mem : Nat → UInt8} {slot : Nat} {ranges : List AddrRange}
    (h : RangesAt mem slot ranges) (shareRnd : UInt16) {fuel : Nat}
    (hfuel : ranges.length < fuel) :
    match ranges.find? fun range => shareRnd.toNat ≤ range.max.toNat with
    | none => chooseRange mem shareRnd fuel slot = some none
    | some range => ∃ place, chooseRange mem shareRnd fuel slot = some (some place) ∧
        RangeAt mem place range.addr := by
  induction ranges generalizing slot fuel with
  | nil =>
    obtain ⟨fuel, rfl⟩ := Nat.exists_eq_succ_of_ne_zero (Nat.ne_of_gt hfuel)
    exact if_pos h
  | cons range rest ih =>
    obtain ⟨hptr, hlen, haddr, hmax, hrest⟩ := h
    obtain ⟨fuel, rfl⟩ := Nat.exists_eq_succ_of_ne_zero (Nat.ne_zero_of_lt hfuel)
    rw [chooseRange, if_neg hptr, hmax, List.find?_cons]
    by_cases hreach : shareRnd.toNat ≤ range.max.toNat
    · simp only [hreach, decide_true, if_true]
      exact ⟨slot, rfl, hlen, haddr⟩
    · simp only [hreach, decide_false, if_false]
      exact ih hrest (Nat.lt_of_succ_lt_succ hfuel)

/-- The record found is that of the first modifier with the name. -/
theorem foundMod_of_find? {mem : Nat → UInt8} {places : List Nat} {mods : List UsernameMod}
    (hplaces : List.Forall₂ (ModAt mem) places mods) {mod : UsernameMod} {modname : List UInt8}
    (hmod : (mods.find? fun other => other.name == modname) = some mod) :
    ∃ umod, foundMod places mods modname = some umod ∧ ModAt mem umod mod := by
  induction hplaces with
  | nil => cases hmod
  | @cons umod first places mods hfirst _ ih =>
    unfold foundMod at ih ⊢
    rw [List.zip_cons_cons, List.find?_cons]
    rw [List.find?_cons] at hmod
    cases hname : first.name == modname with
    | true =>
      rw [hname] at hmod
      obtain rfl := Option.some.inj hmod
      exact ⟨umod, rfl, hfirst⟩
    | false =>
      rw [hname] at hmod
      exact ih hmod

/-- The address a share goes to by the ranges of a modifier; the pool's where there is
    none. -/
def UsernameMod.chosen (mod : UsernameMod) (shareRnd : UInt16) : Option (List UInt8) :=
  (mod.ranges.find? fun range => shareRnd.toNat ≤ range.max.toNat).map AddrRange.addr

/-- A choice in memory is what the ranges say. -/
def UsernameChoice.IsChosen (mem : Nat → UInt8) : UsernameChoice → Option (List UInt8) → Prop
  | .pool, none => True
  | .range place, some addr => RangeAt mem place addr
  | _, _ => False

theorem chooseUsername_eq {mem : Nat → UInt8} {umods : Option Nat} {mods : List UsernameMod}
    {places : List Nat} (h : FaithfulTable mem umods mods places) {mod : UsernameMod}
    {modname : List UInt8} (hmod : (mods.find? fun other => other.name == modname) = some mod)
    (shareRnd : UInt16) {fuel : Nat} (hplaces : places.length ≤ fuel)
    (hranges : mod.ranges.length < fuel) :
    ∃ choice, chooseUsername mem umods fuel shareRnd modname = some choice ∧
      choice.IsChosen mem (mod.chosen shareRnd) := by
  obtain ⟨umod, hfound, hrecord⟩ := foundMod_of_find? h.records hmod
  have hrange := chooseRange_eq hrecord.ranges shareRnd hranges
  unfold chooseUsername UsernameMod.chosen
  rw [h.finds modname fuel hplaces, hfound]
  cases hfind : mod.ranges.find? fun range => shareRnd.toNat ≤ range.max.toNat with
  | none =>
    rw [hfind] at hrange
    exact ⟨.pool, by simp [hrange], trivial⟩
  | some range =>
    rw [hfind] at hrange
    obtain ⟨place, hplace, hat⟩ := hrange
    exact ⟨.range place, by simp [hplace], hat⟩

theorem UsernameChoice.IsChosen.addr {mem : Nat → UInt8} {choice : UsernameChoice}
    {addr : Option (List UInt8)} (h : choice.IsChosen mem addr) :
    choice.addr mem = addr ∧ (choice.addr mem = none → choice = .pool) := by
  cases choice with
  | unchanged => cases h
  | pool =>
    cases addr with
    | none => exact ⟨rfl, fun _ => rfl⟩
    | some addr => cases h
  | range place =>
    cases addr with
    | none => cases h
    | some addr =>
      have hread : UsernameChoice.addr mem (.range place) = some addr := by
        rw [UsernameChoice.addr, h.addrLen, h.read]
      exact ⟨hread, fun hnone => nomatch hread.symm.trans hnone⟩

/-- Where the names are distinct, a modifier is the one with its name. -/
theorem find?_name {mods : List UsernameMod} (hnames : (mods.map UsernameMod.name).Nodup)
    {mod : UsernameMod} (hmod : mod ∈ mods) :
    (mods.find? fun other => other.name == mod.name) = some mod := by
  induction mods with
  | nil => cases hmod
  | cons first mods ih =>
    rw [List.map_cons, List.nodup_cons] at hnames
    rw [List.find?_cons]
    rcases List.mem_cons.mp hmod with rfl | hmod
    · simp
    · have hne : first.name ≠ mod.name := fun h => hnames.1 (h ▸ List.mem_map_of_mem hmod)
      rw [beq_false_of_ne hne]
      exact ih hnames.2 hmod

/-! ## The bounds of the ranges -/

/-- The values of `share_rnd` below a running sum of proportions. -/
def shareBound (sum : Rat) : Nat := (min 65536 (65536 * sum).ceil).toNat

theorem shareBound_zero : shareBound 0 = 0 := by
  rw [shareBound, mul_zero]
  rfl

/-- For a sum that is not negative the bound is the number the ranges are rounded to. -/
theorem shareBound_eq {sum : Rat} (h : 0 ≤ sum) :
    (shareBound sum : Int) = min 65536 (65536 * sum).ceil := by
  have hceil : (0 : Int) ≤ (65536 * sum).ceil := by
    have hscaled : ((0 : Int) : Rat) ≤ (65536 * sum).ceil :=
      le_trans (by positivity) Rat.le_ceil
    exact_mod_cast hscaled
  unfold shareBound
  omega

theorem shareBound_le (sum : Rat) : shareBound sum ≤ 65536 := by
  unfold shareBound
  omega

theorem shareBound_mono : Monotone shareBound := by
  intro sum other h
  have hscaled : 65536 * sum ≤ 65536 * other := by gcongr
  have hceil : (65536 * sum).ceil ≤ (65536 * other).ceil :=
    Rat.ceil_le_iff.mpr (hscaled.trans Rat.le_ceil)
  unfold shareBound
  omega

theorem nonceMax_none {sum : Rat} (h : exactArith.nonceMax sum = none) : shareBound sum = 0 := by
  simp only [exactArith, mul_comm sum] at h
  unfold shareBound
  split_ifs at h with hneg
  omega

theorem nonceMax_some {sum : Rat} {nonceMax : UInt16}
    (h : exactArith.nonceMax sum = some nonceMax) : nonceMax.toNat + 1 = shareBound sum := by
  simp only [exactArith, mul_comm sum] at h
  unfold shareBound
  split_ifs at h with hneg hhigh
  · cases h
    have htop : (0xffff : UInt16).toNat = 65535 := rfl
    omega
  · cases h
    rw [UInt16.toNat_ofNat']
    omega

/-- The addresses of a modifier with their proportions. -/
def weights (entries : List (String × Json)) : List (List UInt8 × Rat) :=
  entries.map fun entry => (keyBytes entry.1, entry.2.numberValue)

/-- The first range that reaches up to a value is the pick by the running sums: an entry
    whose range is left out, for a proportion of null or zero, has no values, and neither has
    one behind the highest value. -/
theorem find?_modRanges (entries : List (String × Json)) {sum : Rat} {r : Nat} (hr : r < 65536)
    (hsum : shareBound sum ≤ r) :
    ((modRanges exactArith entries sum).find? fun range => r ≤ range.max.toNat).map
        AddrRange.addr = pick shareBound (weights entries) sum r := by
  induction entries generalizing sum with
  | nil => rfl
  | cons entry rest ih =>
    obtain ⟨addr, proportion⟩ := entry
    show _ = pick shareBound ((keyBytes addr, proportion.numberValue) :: weights rest) sum r
    rw [modRanges, pick]
    by_cases hnull : proportion.isNull = true
    · obtain rfl := (Json.isNull_iff proportion).mp hnull
      have hzero : sum + Json.null.numberValue = sum := add_zero sum
      rw [if_pos hnull, hzero, if_neg (Nat.not_lt.mpr hsum)]
      exact ih hsum
    · have hadd : exactArith.add sum (exactArith.value proportion) =
        sum + proportion.numberValue := rfl
      rw [if_neg hnull, hadd]
      cases hmax : exactArith.nonceMax (sum + proportion.numberValue) with
      | none =>
        have hbound := nonceMax_none hmax
        rw [if_neg (by omega)]
        exact ih (by omega)
      | some nonceMax =>
        have hbound := nonceMax_some hmax
        dsimp only
        rw [List.find?_cons]
        by_cases hreach : r ≤ nonceMax.toNat
        · rw [if_pos (show r < shareBound (sum + proportion.numberValue) by omega)]
          simp [hreach]
        · have hpast : shareBound (sum + proportion.numberValue) ≤ r := by omega
          have hlast : nonceMax ≠ 0xffff := by
            rintro rfl
            have htop : (0xffff : UInt16).toNat = 65535 := rfl
            omega
          rw [if_neg hlast, if_neg (Nat.not_lt.mpr hpast)]
          simpa [hreach] using ih hpast

/-! ## The counts -/

/-- What a call that returns 1 says about a modifier of the document, and the table it
    leaves. -/
theorem modifier_of_parsed {malloc : Nat → Option Nat}
    (hmalloc : ∀ size base, malloc size = some base → 0 < base ∧ base + size ≤ 2 ^ 64)
    {s s' : ModsState} {members entries : List (String × Json)} {name : String}
    (hparse : datumConfigParseUsernameMods exactArith malloc s (.object members) = .parsed s')
    (hmember : (name, .object entries) ∈ members) :
    (∀ entry ∈ entries, 0 ≤ entry.2.numberValue) ∧
      usernameMod exactArith name (.object entries) ∈ usernameMods exactArith members ∧
      ∃ places, FaithfulTable s'.mem s'.umods (usernameMods exactArith members) places := by
  have hmod : usernameMod exactArith name (.object entries) ∈
      usernameMods exactArith members := by
    rw [usernameMods_eq]
    exact List.mem_map.mpr ⟨_, List.mem_filter.mpr ⟨hmember, rfl⟩, rfl⟩
  have hnonempty : (Json.object members).members.length ≠ 0 :=
    Nat.ne_of_gt (List.length_pos_of_mem hmember)
  cases hsize : tableSize exactArith (.object members) with
  | none =>
    simp only [datumConfigParseUsernameMods, if_neg hnonempty, hsize] at hparse
    cases hparse
  | some counted =>
    obtain ⟨size, atLeastOneMod⟩ := counted
    have htaken := (modsSize_isSome_iff members _ _).mp (Option.isSome_of_eq_some hsize) _ hmember
    have hsome : atLeastOneMod = true := by
      have hmods : usernameMods exactArith (Json.object members).members ≠ [] :=
        List.ne_nil_of_mem hmod
      rw [atLeastOneMod_eq hsize]
      simpa using hmods
    subst hsome
    refine ⟨?_, hmod, ?_⟩
    · intro entry hentry
      rcases htaken with hnull | ⟨-, htaken⟩
      · cases hnull
      · rcases htaken entry hentry with hnull | ⟨-, hnegative⟩
        · rw [(Json.isNull_iff entry.2).mp hnull]
          exact le_refl 0
        · exact not_lt.mp (of_decide_eq_false hnegative)
    · cases hblock : malloc size with
      | none =>
        simp only [datumConfigParseUsernameMods, if_neg hnonempty, hsize, hblock] at hparse
        cases hparse
      | some base =>
        obtain ⟨hbase, hstop⟩ := hmalloc size base hblock
        obtain ⟨writes, places, -, -, hparsed, htable⟩ :=
          parse_of_block hsize hblock hbase hstop s
        rw [hparse] at hparsed
        cases hparsed
        exact ⟨places, htable⟩

/-- The names of the modifiers are those of their members. -/
theorem nodup_names {members : List (String × Json)}
    (hnames : (members.map fun member => keyBytes member.1).Nodup) :
    ((usernameMods exactArith members).map UsernameMod.name).Nodup := by
  rw [usernameMods_eq, List.map_map]
  exact hnames.sublist (List.filter_sublist.map _)

/-- The proportions up to an entry. -/
def proportionSum (entries : List (String × Json)) : Rat :=
  (entries.map fun entry => entry.2.numberValue).sum

theorem total_weights (entries : List (String × Json)) :
    total (weights entries) = proportionSum entries := by
  simp [total, weights, proportionSum, Function.comp_def]

theorem weights_append (before : List (String × Json)) (addr : String) (proportion : Json)
    (after : List (String × Json)) :
    weights (before ++ (addr, proportion) :: after) =
      weights before ++ (keyBytes addr, proportion.numberValue) :: weights after := by
  simp [weights]

theorem weights_nonneg {entries : List (String × Json)}
    (h : ∀ entry ∈ entries, 0 ≤ entry.2.numberValue) :
    ∀ weight ∈ weights entries, 0 ≤ weight.2 :=
  List.forall_mem_map.mpr h

/-- No other entry has the address of an entry. -/
theorem notMem_weights {before after : List (String × Json)} {addr : String} {proportion : Json}
    (h : ((before ++ (addr, proportion) :: after).map fun entry => keyBytes entry.1).Nodup) :
    keyBytes addr ∉ (weights before).map Prod.fst ∧
      keyBytes addr ∉ (weights after).map Prod.fst := by
  rw [List.map_append, List.map_cons, List.nodup_middle, List.nodup_cons, List.mem_append,
    not_or] at h
  simpa [weights, Function.comp_def] using h.1

/-- In the table for a document, the lookup under the name of a modifier picks by the running
    sums, and is the pool's address where there is no pick. -/
theorem chooseUsername_eq_pick {malloc : Nat → Option Nat}
    (hmalloc : ∀ size base, malloc size = some base → 0 < base ∧ base + size ≤ 2 ^ 64)
    {s s' : ModsState} {members entries : List (String × Json)} {name : String}
    (hparse : datumConfigParseUsernameMods exactArith malloc s (.object members) = .parsed s')
    (hnames : (members.map fun member => keyBytes member.1).Nodup)
    (hmember : (name, .object entries) ∈ members) {fuel : Nat}
    (hmembers : members.length ≤ fuel) (hentries : entries.length < fuel) {r : Nat}
    (hr : r < 65536) :
    ∃ choice,
      chooseUsername s'.mem s'.umods fuel (UInt16.ofNat r) (keyBytes name) = some choice ∧
      choice.addr s'.mem = pick shareBound (weights entries) 0 r ∧
      (choice.addr s'.mem = none → choice = .pool) := by
  obtain ⟨-, hmod, places, htable⟩ := modifier_of_parsed hmalloc hparse hmember
  have hplaces : places.length ≤ fuel := by
    rw [htable.records.length_eq, usernameMods_eq, List.length_map]
    exact Nat.le_trans (List.length_filter_le _ _) hmembers
  have hranges : (usernameMod exactArith name (.object entries)).ranges.length < fuel :=
    Nat.lt_of_le_of_lt (length_modRanges_le entries exactArith.zero) hentries
  obtain ⟨choice, hchoice, hchosen⟩ := chooseUsername_eq htable
    (find?_name (nodup_names hnames) hmod) (UInt16.ofNat r) hplaces hranges
  obtain ⟨haddr, hpool⟩ := hchosen.addr
  rw [UsernameMod.chosen, UInt16.toNat_ofNat_of_lt' hr] at haddr
  refine ⟨choice, hchoice, haddr.trans ?_, hpool⟩
  exact find?_modRanges entries hr (Nat.le_trans (Nat.le_of_eq shareBound_zero) (Nat.zero_le r))

/-- Where the choice is the pick by the running sums, the values an address gets are those
    between the bounds in front of its entry and behind it. -/
theorem card_chosen {entries : List (String × Json)} {chosen : Nat → Option (List UInt8)}
    (hpick : ∀ r < 65536, chosen r = pick shareBound (weights entries) 0 r)
    (hnonneg : ∀ entry ∈ entries, 0 ≤ entry.2.numberValue)
    (haddrs : (entries.map fun entry => keyBytes entry.1).Nodup)
    {before after : List (String × Json)} {addr : String} {proportion : Json}
    (hsplit : entries = before ++ (addr, proportion) :: after) :
    (((Finset.range 65536).filter fun r => chosen r = some (keyBytes addr)).card : Int) =
      min 65536 (65536 * (proportionSum before + proportion.numberValue)).ceil -
        min 65536 (65536 * proportionSum before).ceil := by
  subst hsplit
  rw [List.forall_mem_append, List.forall_mem_cons] at hnonneg
  obtain ⟨hbefore, hproportion, -⟩ := hnonneg
  have hweights := weights_nonneg hbefore
  obtain ⟨hearlier, hlater⟩ := notMem_weights haddrs
  have hsum : 0 ≤ proportionSum before := total_weights before ▸ total_nonneg hweights
  have hgrow : proportionSum before ≤ proportionSum before + proportion.numberValue :=
    le_add_of_nonneg_right hproportion
  rw [Finset.filter_congr fun r hr => by rw [hpick r (Finset.mem_range.mp hr)], weights_append,
    card_pick shareBound_mono shareBound_le hearlier hlater hweights shareBound_zero, zero_add,
    total_weights, Nat.cast_sub (shareBound_mono hgrow), shareBound_eq hsum,
    shareBound_eq (hsum.trans hgrow)]

/-- A document of proportions that are not negative is parsed. In the table it leaves, the
    values of `share_rnd` an address of a modifier gets are those between the bounds of its
    running sums, and the pool's address gets the others. -/
theorem shareRnd_distribution {malloc : Nat → Option Nat}
    (hmalloc : ∀ size base, malloc size = some base → 0 < base ∧ base + size ≤ 2 ^ 64)
    {s : ModsState} {members entries : List (String × Json)} {name : String}
    (hnames : (members.map fun member => keyBytes member.1).Nodup)
    (hmember : (name, .object entries) ∈ members)
    (haddrs : (entries.map fun entry => keyBytes entry.1).Nodup) {fuel : Nat}
    (hmembers : members.length ≤ fuel) (hentries : entries.length < fuel) :
    (ModsTaken exactArith members →
      (∀ size, tableSize exactArith (.object members) = some (size, true) →
        (malloc size).isSome = true) →
      ∃ s', datumConfigParseUsernameMods exactArith malloc s (.object members) = .parsed s') ∧
    ∀ s', datumConfigParseUsernameMods exactArith malloc s (.object members) = .parsed s' →
      (∀ before addr proportion after, entries = before ++ (addr, proportion) :: after →
        (((Finset.range 65536).filter fun r =>
            (chooseUsername s'.mem s'.umods fuel (UInt16.ofNat r) (keyBytes name)).bind
              (UsernameChoice.addr s'.mem) = some (keyBytes addr)).card : Int) =
          min 65536 (65536 * (proportionSum before + proportion.numberValue)).ceil -
            min 65536 (65536 * proportionSum before).ceil) ∧
      ∀ r < 65536,
        (∀ entry ∈ entries,
          (chooseUsername s'.mem s'.umods fuel (UInt16.ofNat r) (keyBytes name)).bind
            (UsernameChoice.addr s'.mem) ≠ some (keyBytes entry.1)) →
        chooseUsername s'.mem s'.umods fuel (UInt16.ofNat r) (keyBytes name) = some .pool := by
  refine ⟨fun htaken hmemory => parsed_of_modsTaken hmalloc htaken hmemory s, ?_⟩
  intro s' hparse
  have hpick : ∀ r < 65536,
      (chooseUsername s'.mem s'.umods fuel (UInt16.ofNat r) (keyBytes name)).bind
        (UsernameChoice.addr s'.mem) = pick shareBound (weights entries) 0 r := by
    intro r hr
    obtain ⟨choice, hchoice, haddr, -⟩ :=
      chooseUsername_eq_pick hmalloc hparse hnames hmember hmembers hentries hr
    rw [hchoice, Option.bind_some, haddr]
  constructor
  · intro before addr proportion after hsplit
    exact card_chosen hpick (modifier_of_parsed hmalloc hparse hmember).1 haddrs hsplit
  · intro r hr hnone
    obtain ⟨choice, hchoice, haddr, hpool⟩ :=
      chooseUsername_eq_pick hmalloc hparse hnames hmember hmembers hentries hr
    rw [hchoice]
    congr 1
    apply hpool
    cases howner : pick shareBound (weights entries) 0 r with
    | none => rw [haddr, howner]
    | some addr =>
      have hkey := mem_of_pick howner
      rw [weights, List.map_map] at hkey
      obtain ⟨entry, hentry, rfl⟩ := List.mem_map.mp hkey
      exact absurd ((hpick r hr).trans howner) (hnone entry hentry)

/-- Half of the values go to the address with a half, none to the one in front of it. -/
theorem sampleMods_distribution :
    ∃ s', datumConfigParseUsernameMods exactArith oneBlock ⟨none, fun _ => 0, []⟩ sampleMods =
        .parsed s' ∧
      (((Finset.range 65536).filter fun r =>
        (chooseUsername s'.mem s'.umods 3 (UInt16.ofNat r) (keyBytes "x")).bind
          (UsernameChoice.addr s'.mem) = some (keyBytes "b")).card : Int) = 32768 := by
  have hmember : ("x", Json.object [("a", .integer 0), ("b", .real (1 / 2))]) ∈
      [("x", Json.object [("a", .integer 0), ("b", .real (1 / 2))]), ("y", .null)] :=
    List.mem_cons_self
  have hturns : [("a", Json.integer 0), ("b", .real (1 / 2))].length < 3 := by decide
  obtain ⟨hparses, hcounts⟩ := shareRnd_distribution (s := ⟨none, fun _ => 0, []⟩)
    oneBlock_inside (by decide +kernel) hmember (by decide +kernel) (by decide) hturns
  obtain ⟨s', hparsed⟩ := hparses
    ((modsSize_isSome_iff _ 0 false).mp (by decide +kernel)) (by
      have hsize : tableSize exactArith sampleMods = some (171, true) := by decide +kernel
      intro size hcounted
      cases hsize.symm.trans hcounted
      rfl)
  refine ⟨s', hparsed, ?_⟩
  refine ((hcounts s' hparsed).1 [("a", .integer 0)] "b" (.real (1 / 2)) [] rfl).trans ?_
  decide +kernel

end ChirpGateway
