import ChirpGateway.Stratum.ModUsername

/-!
# The username that comes back

What `datum_stratum_mod_username` returns for a username with a tilde and the name of a
modifier. The worker is looked for in the whole username, so that a period in the name of the
modifier is taken for one in front of it.
-/

namespace ChirpGateway

open Bytes SizedRecords Writes Within Buffer

/-! ## What is to come back -/

/-- The username by the choice: the pool's address; what is in front of the tilde; or the
    address, with the worker where that is in front of the tilde and the buffer holds it. -/
def modifiedUsername (poolAddress before : List UInt8) : Option (List UInt8) → List UInt8
  | none => poolAddress
  | some addr =>
    if addr = [] then before.take (usernameBufSize - 1)
    else if addr.length ≥ usernameBufSize then addr
    else (addr ++ before.dropWhile (· ≠ 0x2e)).take (usernameBufSize - 1)

/-- The string that starts where the pointer points to, with its terminator. -/
def ModUsername.Reads (mem : Nat → UInt8) (username poolAddress : List UInt8) :
    ModUsername → List UInt8 → Prop
  | .username, text => text = username
  | .poolAddress, text => text = poolAddress
  | .address place, text => 0 ∉ text ∧ read mem place (text.length + 1) = text ++ [0]
  | .buffer written, text => 0 ∈ written ∧ cString written = text

theorem reads_buffer {mem : Nat → UInt8} {username poolAddress text : List UInt8}
    (h : 0 ∉ text) :
    (ModUsername.buffer (text ++ [0])).Reads mem username poolAddress text := by
  refine ⟨by simp, ?_⟩
  rw [cString_append_of_notMem h]
  simp [cString]

section

variable {mem : Nat → UInt8} {username addr : List UInt8} {tilde range : Nat}

/-- An empty address: the username up to the tilde. -/
theorem modUsernameWithin_nil (h : RangeAt mem range []) (htilde : tilde ≤ username.length) :
    modUsernameWithin mem username tilde (.range range) =
      some (.buffer ((username.take tilde).take (usernameBufSize - 1) ++ [0])) := by
  have hlen : (if tilde ≥ usernameBufSize then usernameBufSize - 1 else tilde) =
      min (usernameBufSize - 1) tilde := by
    unfold usernameBufSize
    split_ifs <;> omega
  have hfront : span (username ++ [0]) 0 (min (usernameBufSize - 1) tilde) =
      some ((username.take tilde).take (usernameBufSize - 1)) := by
    rw [span, if_pos (by rw [List.length_append]; omega), List.drop_zero,
      List.take_append_of_le_length (by omega), List.take_take]
  have hroom : ((username.take tilde).take (usernameBufSize - 1)).length + 1 ≤
      usernameBufSize := by
    have htake := List.length_take_le (usernameBufSize - 1) (username.take tilde)
    unfold usernameBufSize at htake ⊢
    omega
  simp only [modUsernameWithin, h.addrLen, List.length_nil, if_true, hlen, hfront,
    Option.bind_some]
  rw [put_of_room (by simp), Option.bind_some,
    put_of_room (by simpa using hroom)]
  rfl

/-- An address that is not empty, where the username has no period or the address fills the
    buffer. -/
theorem modUsernameWithin_address (h : RangeAt mem range addr) (hne : addr ≠ [])
    (hplain : 0x2e ∉ username ∨ addr.length ≥ usernameBufSize) :
    modUsernameWithin mem username tilde (.range range) =
      some (.address (readLe mem range 8)) := by
  have hlen : addr.length ≠ 0 := fun hzero => hne (List.eq_nil_of_length_eq_zero hzero)
  simp only [modUsernameWithin, h.addrLen, if_neg hlen]
  cases hperiod : strchr username 0x2e with
  | none => rfl
  | some period =>
    rcases hplain with hnone | hlong
    · rw [strchr_of_notMem hnone] at hperiod
      cases hperiod
    · exact if_pos hlong

/-- The difference of two places, as a `size_t`. -/
def sizeDiff (tilde period : Nat) : Nat :=
  if period ≤ tilde then tilde - period else 2 ^ 64 - (period - tilde)

/-- An address with what is read from the first period on. -/
theorem modUsernameWithin_period (h : RangeAt mem range addr) (hne : addr ≠ [])
    (hshort : addr.length < usernameBufSize) {period : Nat}
    (hperiod : strchr username 0x2e = some period) :
    modUsernameWithin mem username tilde (.range range) =
      (span (username ++ [0]) period
        (min (sizeDiff tilde period) (usernameBufSize - addr.length - 1))).map fun suffix =>
          .buffer (addr ++ suffix ++ [0]) := by
  have hlen : addr.length ≠ 0 := fun hzero => hne (List.eq_nil_of_length_eq_zero hzero)
  have hmin : (if sizeDiff tilde period > usernameBufSize - addr.length - 1 then
      usernameBufSize - addr.length - 1 else sizeDiff tilde period) =
      min (sizeDiff tilde period) (usernameBufSize - addr.length - 1) := by
    split_ifs <;> omega
  unfold sizeDiff at hmin
  simp only [modUsernameWithin, h.addrLen, if_neg hlen, hperiod,
    if_neg (Nat.not_le.mpr hshort), h.read, hmin]
  rw [put_of_room (by simpa using Nat.le_of_lt hshort), Option.bind_some]
  cases hspan : span (username ++ [0]) period
      (min (sizeDiff tilde period) (usernameBufSize - addr.length - 1)) with
  | none =>
    unfold sizeDiff at hspan
    rw [hspan]
    rfl
  | some suffix =>
    have hsuffix := length_of_span hspan
    unfold sizeDiff at hspan
    rw [hspan, Option.bind_some, put_of_room (by simp; omega), Option.bind_some,
      put_of_room (by simp; omega)]
    simp

end

/-! ## When it comes back -/

/-- There is no worker in front of the tilde, and a period of the name is taken for one,
    with room behind the address. -/
def PeriodInName (before name : List UInt8) : Option (List UInt8) → Prop
  | none => False
  | some addr => addr ≠ [] ∧ addr.length < usernameBufSize - 1 ∧ 0x2e ∉ before ∧
    0x2e ∈ name

section

variable {mem : Nat → UInt8} {poolAddress before name addr : List UInt8} {range : Nat}

/-- With a period in front of the tilde the worker follows the address. -/
theorem modUsernameWithin_worker (h : RangeAt mem range addr) (hne : addr ≠ [])
    (hshort : addr.length < usernameBufSize) (hworker : 0x2e ∈ before) :
    modUsernameWithin mem (before ++ 0x7e :: name) before.length (.range range) =
      some (.buffer ((addr ++ before.dropWhile (· ≠ 0x2e)).take (usernameBufSize - 1) ++
        [0])) := by
  obtain ⟨front, rest, rfl, hfront⟩ := List.eq_append_cons_of_mem hworker
  have hdrop : (front ++ 0x2e :: rest).dropWhile (· ≠ 0x2e) = 0x2e :: rest := by
    rw [List.dropWhile_append_of_pos]
    · simp
    · intro ch hch
      have hne : ch ≠ 0x2e := fun heq => hfront (heq ▸ hch)
      simpa using hne
  have hperiod : strchr (front ++ 0x2e :: rest ++ 0x7e :: name) 0x2e = some front.length := by
    rw [List.append_assoc, List.cons_append]
    exact strchr_append_cons hfront _
  have hdiff : sizeDiff (front ++ 0x2e :: rest).length front.length = (0x2e :: rest).length := by
    simp [sizeDiff]
  rw [modUsernameWithin_period h hne hshort hperiod, hdiff, hdrop, List.take_append,
    List.take_of_length_le (by unfold usernameBufSize at hshort ⊢; omega)]
  generalize hcount : usernameBufSize - addr.length - 1 = count
  have hcount' : usernameBufSize - 1 - addr.length = count := by omega
  have hinside : front.length + min (0x2e :: rest).length count ≤
      (front ++ 0x2e :: rest ++ 0x7e :: name ++ [0]).length := by
    simp
  have hrest : (front ++ 0x2e :: rest ++ 0x7e :: name ++ [0]).drop front.length =
      (0x2e :: rest) ++ (0x7e :: name ++ [0]) := by
    simp
  have htake : (0x2e :: rest).take (min (0x2e :: rest).length count) =
      (0x2e :: rest).take count := by
    rw [Nat.min_comm, ← List.take_eq_take_min]
  rw [hcount', span, if_pos hinside, hrest, List.take_append_of_le_length (Nat.min_le_left _ _),
    htake]
  rfl

/-- With the first period behind the tilde, what follows the address is read from there. -/
theorem modUsernameWithin_name (h : RangeAt mem range addr) (hne : addr ≠ [])
    (hshort : addr.length < usernameBufSize) (hworker : 0x2e ∉ before)
    {front rest : List UInt8} (hname : name = front ++ 0x2e :: rest) (hfront : 0x2e ∉ front)
    (hlen : (before ++ 0x7e :: name).length < 2 ^ 63) :
    modUsernameWithin mem (before ++ 0x7e :: name) before.length (.range range) =
      (span (before ++ 0x7e :: name ++ [0]) (before.length + 1 + front.length)
        (usernameBufSize - 1 - addr.length)).map fun suffix => .buffer (addr ++ suffix ++ [0]) := by
  have hskip : 0x2e ∉ before ++ 0x7e :: front := by
    simp [hworker, hfront]
  have hplace : (before ++ 0x7e :: front).length = before.length + 1 + front.length := by
    simp
    omega
  have hperiod : strchr (before ++ 0x7e :: name) 0x2e =
      some (before.length + 1 + front.length) := by
    rw [← hplace, hname, ← strchr_append_cons hskip rest, List.append_assoc, List.cons_append]
  have hdiff : min (sizeDiff before.length (before.length + 1 + front.length))
      (usernameBufSize - addr.length - 1) = usernameBufSize - 1 - addr.length := by
    rw [hname] at hlen
    simp only [List.length_append, List.length_cons] at hlen
    rw [sizeDiff, if_neg (by omega), usernameBufSize]
    omega
  rw [modUsernameWithin_period h hne hshort hperiod, hdiff]

/-- Without a worker in front of the tilde the address is to come back. -/
theorem modifiedUsername_address (hne : addr ≠ []) (hshort : addr.length ≤ usernameBufSize - 1)
    (hworker : 0x2e ∉ before) : modifiedUsername poolAddress before (some addr) = addr := by
  have hplain : before.dropWhile (· ≠ 0x2e) = [] := by
    rw [List.dropWhile_eq_nil_iff]
    intro ch hch
    have hother : ch ≠ 0x2e := fun heq => hworker (heq ▸ hch)
    simpa using hother
  rw [modifiedUsername, if_neg hne, if_neg (by unfold usernameBufSize at hshort ⊢; omega), hplain,
    List.append_nil, List.take_of_length_le hshort]

/-- A worker that was read from behind the tilde is not what is to come back. -/
theorem not_reads_name (haddr : 0 ∉ addr) (hne : addr ≠ [])
    (hroom : addr.length < usernameBufSize - 1) (hworker : 0x2e ∉ before)
    {front rest : List UInt8}
    (hname : name = front ++ 0x2e :: rest) {suffix : List UInt8}
    (hspan : span (before ++ 0x7e :: name ++ [0]) (before.length + 1 + front.length)
      (usernameBufSize - 1 - addr.length) = some suffix) :
    ¬ (ModUsername.buffer (addr ++ suffix ++ [0])).Reads mem (before ++ 0x7e :: name) poolAddress
      (modifiedUsername poolAddress before (some addr)) := by
  rintro ⟨-, htext⟩
  have hwanted : modifiedUsername poolAddress before (some addr) = addr :=
    modifiedUsername_address hne (Nat.le_of_lt hroom) hworker
  -- The suffix starts with the period, and the address is longer by at least that.
  obtain ⟨count, hcount⟩ := Nat.exists_eq_add_of_lt hroom
  have hdrop : (before ++ 0x7e :: name ++ [0]).drop (before.length + 1 + front.length) =
      0x2e :: (rest ++ [0]) := by
    rw [hname]
    have hplace : before.length + 1 + front.length = (before ++ 0x7e :: front).length := by
      simp
      omega
    rw [hplace, show before ++ 0x7e :: (front ++ 0x2e :: rest) ++ [0] =
      (before ++ 0x7e :: front) ++ 0x2e :: (rest ++ [0]) by simp, List.drop_left]
  have hsuffix : suffix = 0x2e :: (rest ++ [0]).take count := by
    unfold span at hspan
    split_ifs at hspan
    obtain rfl := Option.some.inj hspan
    rw [hdrop, show usernameBufSize - 1 - addr.length = count + 1 by omega, List.take_succ_cons]
  rw [hwanted, hsuffix, List.append_assoc, cString_append_of_notMem haddr] at htext
  have hlength := congrArg List.length htext
  rw [List.length_append, List.cons_append, cString, List.takeWhile_cons_of_pos (by decide),
    List.length_cons] at hlength
  omega

/-- For a choice in memory the call returns what is to come back, without reading outside the
    username or writing outside the buffer, unless a period of the name is taken for a
    worker. -/
theorem modUsernameWithin_exact_iff {choice : UsernameChoice} {chosen : Option (List UInt8)}
    (h : choice.IsChosen mem chosen) (haddr : ∀ addr, chosen = some addr → 0 ∉ addr)
    (hnul : 0 ∉ before) (hlen : (before ++ 0x7e :: name).length < 2 ^ 63) :
    (∃ result, modUsernameWithin mem (before ++ 0x7e :: name) before.length choice =
      some result ∧
      result.Reads mem (before ++ 0x7e :: name) poolAddress
        (modifiedUsername poolAddress before chosen)) ↔
      ¬ PeriodInName before name chosen := by
  cases choice with
  | unchanged => cases h
  | pool =>
    cases chosen with
    | some addr => cases h
    | none => exact iff_of_true ⟨.poolAddress, rfl, rfl⟩ not_false
  | range place =>
    cases chosen with
    | none => cases h
    | some addr =>
      have hrange : RangeAt mem place addr := h
      have hzero := haddr addr rfl
      by_cases hne : addr = []
      · subst hne
        refine iff_of_true ⟨_, modUsernameWithin_nil hrange (by simp), ?_⟩ fun hperiod =>
          hperiod.1 rfl
        rw [modifiedUsername, if_pos rfl, List.take_left]
        exact reads_buffer fun hmem => hnul (List.mem_of_mem_take hmem)
      by_cases hlong : addr.length ≥ usernameBufSize
      · refine iff_of_true ⟨_, modUsernameWithin_address hrange hne (Or.inr hlong), ?_⟩
          fun hperiod => ?_
        · rw [modifiedUsername, if_neg hne, if_pos hlong]
          exact ⟨hzero, hrange.addr⟩
        · have hroom := hperiod.2.1
          omega
      have hshort := Nat.lt_of_not_le hlong
      by_cases hworker : 0x2e ∈ before
      · refine iff_of_true ⟨_, modUsernameWithin_worker hrange hne hshort hworker, ?_⟩
          fun hperiod =>
          hperiod.2.2.1 hworker
        rw [modifiedUsername, if_neg hne, if_neg hlong]
        refine reads_buffer fun hmem => ?_
        rcases List.mem_append.mp (List.mem_of_mem_take hmem) with hmem | hmem
        · exact hzero hmem
        · exact hnul (List.dropWhile_sublist _ |>.subset hmem)
      have hwanted : modifiedUsername poolAddress before (some addr) = addr :=
        modifiedUsername_address hne (Nat.le_pred_of_lt hshort) hworker
      by_cases hname : 0x2e ∈ name
      · obtain ⟨front, rest, hsplit, hfront⟩ := List.eq_append_cons_of_mem hname
        rw [modUsernameWithin_name hrange hne hshort hworker hsplit hfront hlen]
        by_cases hroom : addr.length < usernameBufSize - 1
        · refine iff_of_false ?_ fun hnot => hnot ⟨hne, hroom, hworker, hname⟩
          rintro ⟨result, hresult, hreads⟩
          obtain ⟨suffix, hspan, rfl⟩ := Option.map_eq_some_iff.mp hresult
          exact not_reads_name hzero hne hroom hworker hsplit hspan hreads
        · -- The address fills the buffer up to the terminator, and nothing is read.
          have hfull : usernameBufSize - 1 - addr.length = 0 := by omega
          refine iff_of_true ⟨.buffer (addr ++ [0]), ?_, ?_⟩ fun hperiod => hroom hperiod.2.1
          · rw [hfull, span, if_pos (by rw [hsplit]; simp; omega)]
            simp
          · rw [hwanted]
            exact reads_buffer hzero
      · have hperiod : 0x2e ∉ before ++ 0x7e :: name := by
          simp [hworker, hname]
        refine iff_of_true ⟨_, modUsernameWithin_address hrange hne (Or.inl hperiod), ?_⟩
          fun hperiod => hname hperiod.2.2.2
        rw [hwanted]
        exact ⟨hzero, hrange.addr⟩

end

/-! ## The call -/

section

variable {mem : Nat → UInt8} {umods : Option Nat} {mods : List UsernameMod} {places : List Nat}
  {mod : UsernameMod} {name before : List UInt8}

/-- The name is what follows the first tilde, and the choice for it is that of the table. -/
theorem submitUsername_eq (h : FaithfulTable mem umods mods places)
    (hmod : (mods.find? fun other => other.name == name) = some mod) (shareRnd : UInt16)
    (hbefore : 0x7e ∉ before) {fuel : Nat} (hplaces : places.length ≤ fuel)
    (hranges : mod.ranges.length < fuel) :
    ∃ choice, choice.IsChosen mem (mod.chosen shareRnd) ∧
      submitUsername mem umods fuel shareRnd (before ++ 0x7e :: name) =
        some (modUsernameWithin mem (before ++ 0x7e :: name) before.length choice) := by
  have htable : ¬ umods.isNone := by
    intro hnone
    obtain rfl := Option.isNone_iff_eq_none.mp hnone
    have hvisits := h.visits
    cases hvisits with
    | done =>
      have hrecords := h.records
      cases hrecords
      cases hmod
  obtain ⟨choice, hchoice, hchosen⟩ := chooseUsername_eq h hmod shareRnd hplaces hranges
  have hname : (before ++ 0x7e :: name).drop (before.length + 1) = name := by
    rw [List.drop_append]
    simp
  refine ⟨choice, hchosen, ?_⟩
  rw [submitUsername, if_neg htable, strchr_append_cons hbefore]
  simp only [hname, hchoice, Option.map_some]

/-- For a username with the name of a modifier of the table behind its first tilde, what the
    call returns is what is to come back, without a read outside the username or a store
    outside the buffer, if and only if no period of the name is taken for a worker. -/
theorem submitUsername_exact_iff (h : FaithfulTable mem umods mods places)
    (hmod : (mods.find? fun other => other.name == name) = some mod)
    (haddrs : ∀ range ∈ mod.ranges, 0 ∉ range.addr) (shareRnd : UInt16)
    (poolAddress : List UInt8) (hbefore : 0x7e ∉ before) (hnul : 0 ∉ before)
    (hlen : (before ++ 0x7e :: name).length < 2 ^ 63) {fuel : Nat}
    (hplaces : places.length ≤ fuel) (hranges : mod.ranges.length < fuel) :
    (∃ result,
      submitUsername mem umods fuel shareRnd (before ++ 0x7e :: name) = some (some result) ∧
      result.Reads mem (before ++ 0x7e :: name) poolAddress
        (modifiedUsername poolAddress before (mod.chosen shareRnd))) ↔
      ¬ PeriodInName before name (mod.chosen shareRnd) := by
  obtain ⟨choice, hchosen, hcall⟩ := submitUsername_eq h hmod shareRnd hbefore hplaces hranges
  have haddr : ∀ addr, mod.chosen shareRnd = some addr → 0 ∉ addr := by
    intro addr haddr
    obtain ⟨range, hfind, rfl⟩ := Option.map_eq_some_iff.mp haddr
    exact haddrs range (List.mem_of_find?_eq_some hfind)
  simpa only [hcall, Option.some.injEq] using modUsernameWithin_exact_iff hchosen haddr hnul hlen

end

/-- A worker in front of the tilde follows the address. -/
theorem sampleMods_worker :
    ∃ s', datumConfigParseUsernameMods exactArith oneBlock ⟨none, fun _ => 0, []⟩ sampleMods =
        .parsed s' ∧
      ∃ result,
        submitUsername s'.mem s'.umods 3 5 (keyBytes "w.r" ++ 0x7e :: keyBytes "x") =
          some (some result) ∧
        result.Reads s'.mem (keyBytes "w.r" ++ 0x7e :: keyBytes "x") (keyBytes "p")
          (keyBytes "b.r") := by
  have hsize : tableSize exactArith sampleMods = some (171, true) := by decide +kernel
  obtain ⟨writes, places, -, -, hparsed, htable⟩ := parse_of_block hsize
    (show oneBlock 171 = some 0x1000 from rfl) (by omega) (by omega) ⟨none, fun _ => 0, []⟩
  have hmods : usernameMods exactArith sampleMods.members =
      [usernameMod exactArith "x" (.object [("a", .integer 0), ("b", .real (1 / 2))])] := rfl
  rw [hmods] at htable
  have hplaces : places.length = 1 := htable.records.length_eq
  have hmod : ([usernameMod exactArith "x"
      (.object [("a", .integer 0), ("b", .real (1 / 2))])].find? fun other =>
        other.name == keyBytes "x") = some (usernameMod exactArith "x"
      (.object [("a", .integer 0), ("b", .real (1 / 2))])) :=
    List.find?_cons_of_pos (by decide +kernel)
  have hchosen : (usernameMod exactArith "x"
      (.object [("a", .integer 0), ("b", .real (1 / 2))])).chosen 5 = some (keyBytes "b") := by
    decide +kernel
  have hworker : modifiedUsername (keyBytes "p") (keyBytes "w.r") (some (keyBytes "b")) =
      keyBytes "b.r" := by decide +kernel
  refine ⟨_, hparsed, ?_⟩
  rw [← hworker, ← hchosen]
  refine (submitUsername_exact_iff htable hmod ?_ 5 (keyBytes "p") ?_ ?_ ?_ ?_ ?_).mpr ?_
  · decide +kernel
  · decide +kernel
  · decide +kernel
  · decide +kernel
  · omega
  · decide +kernel
  · rw [hchosen]
    rintro ⟨-, -, hperiod, -⟩
    revert hperiod
    decide +kernel

/-- A modifier with a period in its name. -/
def dottedMods : Json := .object [("a.b", .object [("c", .integer 1)])]

/-- The period of the name is taken for that of a worker, the difference to the tilde is a
    huge `size_t`, and what fills the buffer is read from far behind the username. -/
theorem dottedMods_outside :
    ∃ s', datumConfigParseUsernameMods exactArith oneBlock ⟨none, fun _ => 0, []⟩ dottedMods =
        .parsed s' ∧
      submitUsername s'.mem s'.umods 3 0 (keyBytes "w" ++ 0x7e :: keyBytes "a.b") = some none := by
  have hsize : tableSize exactArith dottedMods = some (116, true) := by decide +kernel
  obtain ⟨writes, places, -, -, hparsed, htable⟩ := parse_of_block hsize
    (show oneBlock 116 = some 0x1000 from rfl) (by omega) (by omega) ⟨none, fun _ => 0, []⟩
  have hmods : usernameMods exactArith dottedMods.members =
      [usernameMod exactArith "a.b" (.object [("c", .integer 1)])] := rfl
  rw [hmods] at htable
  have hplaces : places.length = 1 := htable.records.length_eq
  have hchosen : (usernameMod exactArith "a.b" (.object [("c", .integer 1)])).chosen 0 =
      some (keyBytes "c") := by
    decide +kernel
  have hmod : ([usernameMod exactArith "a.b" (.object [("c", .integer 1)])].find? fun other =>
      other.name == keyBytes "a.b") =
      some (usernameMod exactArith "a.b" (.object [("c", .integer 1)])) :=
    List.find?_cons_of_pos (by decide +kernel)
  have hbefore : 0x7e ∉ keyBytes "w" := by decide +kernel
  have hturns : places.length ≤ 3 := by omega
  obtain ⟨choice, hchoice, hcall⟩ := submitUsername_eq htable hmod 0 hbefore hturns
    (by decide +kernel)
  refine ⟨_, hparsed, hcall.trans ?_⟩
  rw [hchosen] at hchoice
  cases choice with
  | unchanged => cases hchoice
  | pool => cases hchoice
  | range place =>
    have hname : keyBytes "a.b" = keyBytes "a" ++ 0x2e :: keyBytes "b" := by decide +kernel
    have houtside : span (keyBytes "w" ++ 0x7e :: keyBytes "a.b" ++ [0])
        ((keyBytes "w").length + 1 + (keyBytes "a").length)
        (usernameBufSize - 1 - (keyBytes "c").length) = none := by
      decide +kernel
    rw [modUsernameWithin_name hchoice (by decide +kernel) (by decide +kernel) (by decide +kernel)
      hname (by decide +kernel) (by decide +kernel), houtside]
    rfl

end ChirpGateway
