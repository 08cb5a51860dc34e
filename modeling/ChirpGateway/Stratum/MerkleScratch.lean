import ChirpGateway.Stratum.MerkleBranches

/-!
# The scratch memory of the branches

`templist` has 16384 places (`datum_stratum.c:2145`), as many as there can be leaves.
The levels above the leaves need fewer, but each starts behind a place that is left
out, and near the limit the last levels lie behind the end.
-/

namespace ChirpGateway

open Bytes

/-- Whatever is read of a level was written at the level before, and earlier. -/
def WrittenBefore (accesses : List MerkleAccess) : Prop :=
  ∀ before q index after, accesses = before ++ .readLevel q index :: after →
    ∃ earlier, q = earlier + 1 ∧ .writeLevel earlier index ∈ before

/-- What is read exists, and what is written has room. -/
structure MerkleInRange (txns : List MerkleTxn) (work : MerkleWork) : Prop where
  templist : ∀ q index, .writeLevel q index ∈ work.accesses → index < 16384
  txns : ∀ i, .readTxn i ∈ work.accesses → i < txns.length
  /-- what is read of a level was written at the level before -/
  levels : WrittenBefore work.accesses
  branches : ∀ q, .storeBranch q ∈ work.accesses → q < 24
  full : (merkleBranchesFull work).length ≤ 4096

/-! ## What is touched -/

section Accesses

variable {q currentLevel nextLevel size : Nat}

/-- What the turns of a level touch: nodes of the level itself, the branch, and the
    places of the next level behind its first. -/
theorem of_mem_turns (hsize : 1 < size) {access : MerkleAccess} :
    access ∈ (List.range ((size + 1) / 2)).flatMap
        (nodeAccesses (levelOf q currentLevel nextLevel size)) →
      (∃ j, j + 1 < size ∧ access = levelAccess (levelOf q currentLevel nextLevel size) j) ∨
      access = .storeBranch q ∨
      ∃ i, 0 < i ∧ i < (size + 1) / 2 ∧ access = .writeLevel q (nextLevel + i) := by
  intro hmem
  obtain ⟨i, hi, hmem⟩ := List.mem_flatMap.mp hmem
  rw [List.mem_range] at hi
  unfold nodeAccesses at hmem
  by_cases hzero : i = 0
  · rw [if_pos hzero, List.mem_cons, List.mem_singleton] at hmem
    rcases hmem with rfl | rfl
    · exact .inl ⟨0, by omega, rfl⟩
    · exact .inr (.inl rfl)
  · rw [if_neg hzero, List.mem_cons, List.mem_cons, List.mem_singleton] at hmem
    rcases hmem with rfl | rfl | rfl
    · exact .inl ⟨2 * i - 1, by omega, rfl⟩
    · refine .inl ⟨_, ?_, rfl⟩
      rw [secondOf_levelOf (by omega) hi]
      split_ifs <;> omega
    · exact .inr (.inr ⟨i, by omega, hi, rfl⟩)

theorem writeLevel_mem_turns {i : Nat} (hpos : 0 < i) (hi : i < (size + 1) / 2) :
    .writeLevel q (nextLevel + i) ∈ (List.range ((size + 1) / 2)).flatMap
      (nodeAccesses (levelOf q currentLevel nextLevel size)) := by
  refine List.mem_flatMap.mpr ⟨i, List.mem_range.mpr hi, ?_⟩
  rw [nodeAccesses, if_neg (by omega)]
  exact List.mem_cons_of_mem _ (List.mem_cons_of_mem _ List.mem_cons_self)

/-- How far the levels behind one of so many nodes reach. -/
def scratchReach (size : Nat) : Nat :=
  if size ≤ 2 then 0
  else if size ≤ 4 then 2
  else (size + 1) / 2 + 1 + scratchReach ((size + 1) / 2)
termination_by size

theorem scratchReach_mono {size' : Nat} (h : size ≤ size') :
    scratchReach size ≤ scratchReach size' := by
  induction size using Nat.strong_induction_on generalizing size' with
  | _ size ih =>
    rw [scratchReach.eq_def size, scratchReach.eq_def size']
    split_ifs
    · exact Nat.zero_le _
    · exact Nat.zero_le _
    · exact Nat.zero_le _
    · omega
    · exact le_rfl
    · omega
    · omega
    · omega
    · have hhalf := ih ((size + 1) / 2) (by omega)
        (show (size + 1) / 2 ≤ (size' + 1) / 2 by omega)
      omega

theorem lt_of_writeLevel_mem {q' index : Nat}
    (h : .writeLevel q' index ∈ levelAccesses q currentLevel nextLevel size) :
    2 < size ∧ index < nextLevel + scratchReach size := by
  induction size using Nat.strong_induction_on generalizing q currentLevel nextLevel with
  | _ size ih =>
    rw [levelAccesses] at h
    split_ifs at h with hsize
    · rcases List.mem_append.mp h with hturn | hlater
      · rcases of_mem_turns hsize hturn with ⟨j, -, hread⟩ | hstore | ⟨i, hpos, hi, hwrite⟩
        · unfold levelAccess at hread
          split_ifs at hread
        · cases hstore
        · cases hwrite
          rw [scratchReach]
          split_ifs <;> omega
      · obtain ⟨hmore, hlt⟩ := ih ((size + 1) / 2) (by omega) hlater
        rw [scratchReach, if_neg (by omega), if_neg (by omega)]
        omega
    · cases h

/-- The last place in reach is written. -/
theorem exists_writeLevel_mem (hsize : 2 < size) :
    ∃ q' index, .writeLevel q' index ∈ levelAccesses q currentLevel nextLevel size ∧
      index + 1 = nextLevel + scratchReach size := by
  induction size using Nat.strong_induction_on generalizing q currentLevel nextLevel with
  | _ size ih =>
    rw [levelAccesses, if_pos (by omega), scratchReach, if_neg (by omega)]
    by_cases hsmall : size ≤ 4
    · rw [if_pos hsmall]
      exact ⟨q, nextLevel + 1,
        List.mem_append_left _ (writeLevel_mem_turns (by omega) (by omega)),
        rfl⟩
    · rw [if_neg hsmall]
      obtain ⟨q', index, hmem, hindex⟩ := @ih ((size + 1) / 2) (by omega) (q + 1) nextLevel
        (nextLevel + ((size + 1) / 2 + 1)) (by omega)
      exact ⟨q', index, List.mem_append_right _ hmem, by omega⟩

/-- The transactions are read at the first level. -/
theorem lt_of_readTxn_mem {i : Nat}
    (h : .readTxn i ∈ levelAccesses q currentLevel nextLevel size) :
    q = 0 ∧ i + 1 < size := by
  induction size using Nat.strong_induction_on generalizing q currentLevel nextLevel with
  | _ size ih =>
    rw [levelAccesses] at h
    split_ifs at h with hsize
    · rcases List.mem_append.mp h with hturn | hlater
      · rcases of_mem_turns hsize hturn with ⟨j, hj, hread⟩ | hstore | ⟨i, -, -, hwrite⟩
        · unfold levelAccess at hread
          split_ifs at hread with hq
          cases hread
          exact ⟨hq, hj⟩
        · cases hstore
        · cases hwrite
      · obtain ⟨hq, -⟩ := ih ((size + 1) / 2) (by omega) hlater
        cases hq
    · cases h

/-- A level of at most `2 ^ height` nodes has so many branches above it. -/
theorem lt_of_storeBranch_mem {q' height : Nat} (hheight : size ≤ 2 ^ height)
    (h : .storeBranch q' ∈ levelAccesses q currentLevel nextLevel size) : q' < q + height := by
  induction height generalizing q currentLevel nextLevel size with
  | zero =>
    rw [levelAccesses, if_neg (by omega)] at h
    cases h
  | succ height ih =>
    rw [levelAccesses] at h
    split_ifs at h with hsize
    · rcases List.mem_append.mp h with hturn | hlater
      · rcases of_mem_turns hsize hturn with ⟨j, -, hread⟩ | hstore | ⟨i, -, -, hwrite⟩
        · unfold levelAccess at hread
          split_ifs at hread
        · cases hstore
          omega
        · cases hwrite
      · rw [Nat.pow_succ] at hheight
        have hlt := ih (by omega) hlater
        omega
    · cases h

theorem WrittenBefore.append {log more : List MerkleAccess} (hlog : WrittenBefore log)
    (hmore : ∀ q index, .readLevel q index ∈ more →
      ∃ earlier, q = earlier + 1 ∧ .writeLevel earlier index ∈ log) :
    WrittenBefore (log ++ more) := by
  intro before q index after hsplit
  rcases List.append_eq_append_iff.mp hsplit with
    ⟨middle, rfl, hmiddle⟩ | ⟨middle, rfl, hmiddle⟩
  · obtain ⟨earlier, hq, hmem⟩ := hmore q index
      (hmiddle ▸ List.mem_append_right _ List.mem_cons_self)
    exact ⟨earlier, hq, List.mem_append_left _ hmem⟩
  · cases middle with
    | nil =>
      rw [List.nil_append] at hmiddle
      rw [List.append_nil] at hmore
      exact hmore q index (hmiddle ▸ List.mem_cons_self)
    | cons access rest =>
      rw [List.cons_append, List.cons.injEq] at hmiddle
      obtain ⟨rfl, -⟩ := hmiddle
      exact hlog before q index rest rfl

theorem writtenBefore_levelAccesses {log : List MerkleAccess} (hlog : WrittenBefore log)
    (hlevel : q ≠ 0 → ∀ i, 0 < i → i < size →
      .writeLevel (q - 1) (currentLevel + i) ∈ log) :
    WrittenBefore (log ++ levelAccesses q currentLevel nextLevel size) := by
  induction size using Nat.strong_induction_on generalizing q currentLevel nextLevel log with
  | _ size ih =>
    rw [levelAccesses]
    split_ifs with hsize
    · rw [← List.append_assoc]
      apply ih ((size + 1) / 2) (by omega)
      · apply hlog.append
        intro q' index hread
        rcases of_mem_turns hsize hread with ⟨j, hj, haccess⟩ | hstore | ⟨i, -, -, hwrite⟩
        · unfold levelAccess at haccess
          split_ifs at haccess with hq
          cases haccess
          exact ⟨q - 1, (Nat.sub_one_add_one hq).symm, hlevel hq (j + 1) (Nat.succ_pos j) hj⟩
        · cases hstore
        · cases hwrite
      · intro _ i hpos hi
        exact List.mem_append_right _ (writeLevel_mem_turns hpos hi)
    · rw [List.append_nil]
      exact hlog

end Accesses

/-! ## The text -/

/-- As many texts as branches, each of 64 characters. -/
structure Texted (work : MerkleWork) : Prop where
  count : work.branchesHex.length = work.branchesBin.length
  chars : ∀ hex ∈ work.branchesHex, hex.length = 64

section Text

variable {doubleSha : List UInt8 → Hash32} {txns : List MerkleTxn}

theorem length_reversedTxidHex (i : Nat) : (reversedTxidHex txns i).length = 64 := by
  simp [reversedTxidHex, List.length_flatMap]

theorem Texted.add {work work' : MerkleWork} (h : Texted work) {hash : Hash32} {hex : List UInt8}
    (hbin : work'.branchesBin = work.branchesBin ++ [hash])
    (hhex : work'.branchesHex = work.branchesHex ++ [hex]) (hlen : hex.length = 64) :
    Texted work' := by
  constructor
  · rw [hbin, hhex, List.length_append, List.length_append, h.count]
    rfl
  · intro other hother
    rw [hhex] at hother
    rcases List.mem_append.mp hother with hold | hnew
    · exact h.chars other hold
    · exact List.mem_singleton.mp hnew ▸ hlen

theorem Texted.merkleNode {work : MerkleWork} (h : Texted work) (level : MerkleLevel) (i : Nat) :
    Texted (merkleNode doubleSha txns level work i) := by
  unfold ChirpGateway.merkleNode
  dsimp only
  by_cases hi : i = 0
  · rw [if_pos hi]
    by_cases hq : level.q = 0
    · rw [if_pos hq]
      exact h.add rfl rfl (length_reversedTxidHex 0)
    · rw [if_neg hq]
      exact h.add rfl rfl (by rw [Hex.length_encode, Hash32.length_eq])
  · rw [if_neg hi]
    by_cases hq : level.q = 0
    · rw [if_pos hq]
      exact ⟨h.count, h.chars⟩
    · rw [if_neg hq]
      exact ⟨h.count, h.chars⟩

theorem Texted.merkleLevels {work : MerkleWork} (h : Texted work)
    {q currentLevel nextLevel size : Nat} :
    Texted (merkleLevels doubleSha txns q currentLevel nextLevel size work) := by
  induction size using Nat.strong_induction_on generalizing q currentLevel nextLevel work with
  | _ size ih =>
    by_cases hsize : 1 < size
    · rw [merkleLevels_eq hsize]
      apply ih _ (by omega)
      exact List.foldlRecOn _ _ h fun _ hbefore i _ => hbefore.merkleNode _ i
    · rw [ChirpGateway.merkleLevels, if_neg hsize]
      exact h

theorem texted_calculateMerkleBranches {scratch : Nat → Hash32} {work : MerkleWork}
    (hwork : calculateMerkleBranches doubleSha txns scratch = some work) : Texted work := by
  have hstart :
      Texted { templist := scratch, branchesBin := [], branchesHex := [], accesses := [] } :=
    ⟨rfl, fun _ hhex => absurd hhex List.not_mem_nil⟩
  unfold calculateMerkleBranches at hwork
  dsimp only at hwork
  split_ifs at hwork
  · exact Option.some.inj hwork ▸ hstart
  · exact Option.some.inj hwork ▸ hstart.merkleLevels

theorem length_intersperse_flatten_le (separator : UInt8) {pieces : List (List UInt8)} {n : Nat}
    (h : ∀ piece ∈ pieces, piece.length ≤ n) :
    (List.intersperse [separator] pieces).flatten.length ≤ pieces.length * (n + 1) := by
  induction pieces with
  | nil => exact Nat.zero_le _
  | cons piece pieces ih =>
    have hfirst := h piece List.mem_cons_self
    have hrest := ih fun other hother => h other (List.mem_cons_of_mem _ hother)
    cases pieces with
    | nil =>
      rw [List.intersperse_singleton, List.flatten_singleton, List.length_singleton]
      omega
    | cons next pieces =>
      rw [List.intersperse_cons_cons, List.flatten_cons, List.flatten_cons, List.length_append,
        List.length_append, List.length_singleton, List.length_cons, Nat.succ_mul]
      omega

theorem Texted.length_full_le {work : MerkleWork} (h : Texted work) :
    (merkleBranchesFull work).length ≤ work.branchesBin.length * 67 + 3 := by
  have hpieces : ∀ piece ∈ work.branchesHex.map fun hex =>
      ascii "\"" ++ Buffer.cString hex ++ ascii "\"", piece.length ≤ 66 := by
    intro piece hpiece
    obtain ⟨hex, hhex, rfl⟩ := List.mem_map.mp hpiece
    have hlen :=
      (List.takeWhile_sublist (fun byte : UInt8 => decide (byte ≠ 0)) (l := hex)).length_le
    rw [h.chars hex hhex] at hlen
    rw [List.length_append, List.length_append]
    show 1 + (hex.takeWhile _).length + 1 ≤ 66
    omega
  have hflat := length_intersperse_flatten_le 44 hpieces
  rw [List.length_map, h.count] at hflat
  rw [merkleBranchesFull, List.length_append, List.length_append, List.length_append]
  show 1 + (List.intersperse [44] _).flatten.length + 1 + 1 ≤ _
  omega

end Text

/-! ## How many transactions there is room for -/

theorem scratchReach_16372 : scratchReach 16372 = 16384 := by
  simp [scratchReach]

theorem scratchReach_16373 : scratchReach 16373 = 16386 := by
  simp [scratchReach]

theorem writes_lt_iff (count : Nat) :
    (∀ q index, .writeLevel q index ∈ levelAccesses 0 0 0 (count + 1) → index < 16384) ↔
      count ≤ 16371 := by
  constructor
  · intro hwrites
    by_contra hmany
    obtain ⟨q, index, hmem, hindex⟩ :=
      @exists_writeLevel_mem 0 0 0 (count + 1) (by omega)
    have hlt := hwrites q index hmem
    have hreach := scratchReach_mono (show 16373 ≤ count + 1 by omega)
    rw [scratchReach_16373] at hreach
    omega
  · intro hfew q index hmem
    have hlt := (lt_of_writeLevel_mem hmem).2
    have hreach := scratchReach_mono (show count + 1 ≤ 16372 by omega)
    rw [scratchReach_16372] at hreach
    omega

/-- All other places are in range for every number of transactions. -/
theorem merkleInRange_of_writes {doubleSha : List UInt8 → Hash32} {txns : List MerkleTxn}
    {scratch : Nat → Hash32} {work : MerkleWork} (hcount : txns.length ≤ 16383)
    (hwork : calculateMerkleBranches doubleSha txns scratch = some work)
    (hwrites : ∀ q index, .writeLevel q index ∈ work.accesses → index < 16384) :
    MerkleInRange txns work := by
  obtain ⟨_, hsame, hbranches, haccesses⟩ :=
    calculateMerkleBranches_eq doubleSha txns scratch hcount
  obtain rfl := Option.some.inj (hwork.symm.trans hsame)
  refine ⟨hwrites, ?_, ?_, ?_, ?_⟩
  · intro i hread
    rw [haccesses] at hread
    have hlt := (lt_of_readTxn_mem hread).2
    omega
  · rw [haccesses, ← List.nil_append (levelAccesses 0 0 0 (txns.length + 1))]
    apply writtenBefore_levelAccesses
    · intro before q index after hsplit
      cases before <;> cases hsplit
    · intro hq
      exact absurd rfl hq
  · intro q hstore
    rw [haccesses] at hstore
    have hlt := lt_of_storeBranch_mem (show txns.length + 1 ≤ 2 ^ 14 by omega) hstore
    omega
  · have htext := (texted_calculateMerkleBranches hwork).length_full_le
    have hlevels : work.branchesBin.length ≤ 14 := by
      rw [hbranches]
      apply Merkle.length_branches_le
      rw [List.length_map]
      omega
    omega

/-- Everything is in range exactly up to 16371 transactions. -/
theorem merkleInRange_iff (doubleSha : List UInt8 → Hash32) (txns : List MerkleTxn)
    (scratch : Nat → Hash32) (hcount : txns.length ≤ 16383) :
    (∃ work, calculateMerkleBranches doubleSha txns scratch = some work ∧
      MerkleInRange txns work) ↔ txns.length ≤ 16371 := by
  obtain ⟨work, hwork, -, haccesses⟩ := calculateMerkleBranches_eq doubleSha txns scratch hcount
  rw [← writes_lt_iff, ← haccesses]
  constructor
  · rintro ⟨_, hsame, hrange⟩
    obtain rfl := Option.some.inj (hwork.symm.trans hsame)
    exact hrange.templist
  · intro hwrites
    exact ⟨work, hwork, merkleInRange_of_writes hcount hwork hwrites⟩

theorem merkleInRange_numberedTxns :
    (∃ work, calculateMerkleBranches mixHash (numberedTxns 3) (fun _ => mixHash []) =
        some work ∧ MerkleInRange (numberedTxns 3) work) ↔ (numberedTxns 3).length ≤ 16371 :=
  merkleInRange_iff mixHash (numberedTxns 3) (fun _ => mixHash []) (by decide)

/-- With 16372 transactions the last level but one is written behind the end. -/
theorem not_merkleInRange_16372 :
    ¬ ∃ work, calculateMerkleBranches mixHash (numberedTxns 16372)
        (fun _ => mixHash []) = some work ∧ MerkleInRange (numberedTxns 16372) work := by
  rintro ⟨work, hwork, hrange⟩
  have hlen : (numberedTxns 16372).length = 16372 := by
    rw [numberedTxns, List.length_map, List.length_range]
  obtain ⟨_, hsame, -, haccesses⟩ := calculateMerkleBranches_eq mixHash (numberedTxns 16372)
    (fun _ => mixHash []) (by omega)
  obtain rfl := Option.some.inj (hwork.symm.trans hsame)
  have hwrites := hrange.templist
  rw [haccesses, writes_lt_iff, hlen] at hwrites
  omega

end ChirpGateway
