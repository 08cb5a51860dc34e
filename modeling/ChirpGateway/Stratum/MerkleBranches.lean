import ChirpGateway.Lib.Hex
import ChirpGateway.Lib.Buffer
import ChirpGateway.Stratum.Job
import Mathlib.Logic.Function.Basic

/-!
# The branches of a job

`stratum_calculate_merkle_branches` and `stratum_job_merkle_root_calc`
(`datum_stratum.c:2106-2249`), with the scratch memory they work in and a log of what
they touch. The levels of the tree lie one behind the other in `templist`; each
starts one place further than it would have to.
-/

namespace ChirpGateway

open Bytes

/-- A transaction of the template, as the branches are made from it. -/
structure MerkleTxn where
  txidBin : Hash32
  /-- the characters of `txid_hex` -/
  txidHex : List UInt8

/-- A place that is read or written. `q` counts the levels. -/
inductive MerkleAccess where
  | readTxn (i : Nat)
  | readLevel (q index : Nat)
  | writeLevel (q index : Nat)
  | storeBranch (q : Nat)
  deriving DecidableEq

/-- What a run over the levels changes: `templist`, `merklebranches_bin`,
    `merklebranches_hex` and the log. -/
structure MerkleWork where
  templist : Nat → Hash32
  branchesBin : List Hash32
  branchesHex : List (List UInt8)
  accesses : List MerkleAccess

/-- The variables of one level. The two levels are places in `templist`. -/
structure MerkleLevel where
  q : Nat
  currentLevel : Nat
  nextLevel : Nat
  nextLevelSize : Nat
  levelNeedsDupe : Bool

/-- `txns[i].txid_bin`. There is nothing behind the last transaction. -/
def txidBinAt (txns : List MerkleTxn) (i : Nat) : Hash32 :=
  ((txns[i]?).map MerkleTxn.txidBin).getD ⟨List.replicate 32 0, length_blank⟩

/-- The pairs of characters of `txns[i].txid_hex`, the last one first. -/
def reversedTxidHex (txns : List MerkleTxn) (i : Nat) : List UInt8 :=
  let txidHex := ((txns[i]?).map MerkleTxn.txidHex).getD []
  (List.range 32).flatMap fun j =>
    [txidHex.getD (2 * (31 - j)) 0, txidHex.getD (2 * (31 - j) + 1) 0]

section Calculation

variable (doubleSha : List UInt8 → Hash32) (txns : List MerkleTxn)

/-- One turn of the inner loop. At the first level the coinbase is imagined in front
    of the transactions. -/
def merkleNode (level : MerkleLevel) (work : MerkleWork) (i : Nat) : MerkleWork :=
  let last := level.levelNeedsDupe && i == level.nextLevelSize - 1
  if i = 0 then
    if level.q = 0 then
      { work with
        branchesBin := work.branchesBin ++ [txidBinAt txns 0]
        branchesHex := work.branchesHex ++ [reversedTxidHex txns 0]
        accesses := work.accesses ++ [.readTxn 0, .storeBranch 0] }
    else
      let index := level.currentLevel + if last then 2 * i else 2 * i + 1
      { work with
        branchesBin := work.branchesBin ++ [work.templist index]
        branchesHex := work.branchesHex ++ [Hex.encode (work.templist index).bytes]
        accesses := work.accesses ++ [.readLevel level.q index, .storeBranch level.q] }
  else if level.q = 0 then
    let first := 2 * i - 1
    let second := if last then 2 * i - 1 else 2 * i
    let combined := (txidBinAt txns first).bytes ++ (txidBinAt txns second).bytes
    { work with
      templist := Function.update work.templist (level.nextLevel + i) (doubleSha combined)
      accesses := work.accesses ++
        [.readTxn first, .readTxn second, .writeLevel level.q (level.nextLevel + i)] }
  else
    let first := level.currentLevel + 2 * i
    let second := level.currentLevel + if last then 2 * i else 2 * i + 1
    let combined := (work.templist first).bytes ++ (work.templist second).bytes
    { work with
      templist := Function.update work.templist (level.nextLevel + i) (doubleSha combined)
      accesses := work.accesses ++
        [.readLevel level.q first, .readLevel level.q second,
          .writeLevel level.q (level.nextLevel + i)] }

/-- The loop over the levels, down to a level of one. -/
def merkleLevels (q currentLevel nextLevel currentLevelSize : Nat) (work : MerkleWork) :
    MerkleWork :=
  if currentLevelSize > 1 then
    let levelNeedsDupe : Bool := currentLevelSize % 2 ≠ 0
    let padded := if levelNeedsDupe then currentLevelSize + 1 else currentLevelSize
    let nextLevelSize := padded / 2
    let level : MerkleLevel := { q, currentLevel, nextLevel, nextLevelSize, levelNeedsDupe }
    merkleLevels (q + 1) nextLevel (nextLevel + (nextLevelSize + 1)) nextLevelSize
      ((List.range nextLevelSize).foldl (merkleNode doubleSha txns level) work)
  else
    work
termination_by currentLevelSize
decreasing_by
  split <;> omega

/-- `stratum_calculate_merkle_branches`, on a scratch area without an end and with
    whatever is left in it. Too many transactions are a panic. -/
def calculateMerkleBranches (scratch : Nat → Hash32) : Option MerkleWork :=
  let start : MerkleWork :=
    { templist := scratch, branchesBin := [], branchesHex := [], accesses := [] }
  if txns.length > 16383 then none
  else if txns.length = 0 then some start
  else some (merkleLevels doubleSha txns 0 0 0 (txns.length + 1) start)

/-- `stratum_job_merkle_root_calc`. -/
def jobMerkleRootCalc (branches : List Hash32) (coinbaseTxnHash : Hash32) : Hash32 :=
  match branches with
  | [] => coinbaseTxnHash
  | branch :: rest =>
    rest.foldl (fun next branch => doubleSha (next.bytes ++ branch.bytes))
      (doubleSha (coinbaseTxnHash.bytes ++ branch.bytes))

end Calculation

/-- `merklebranches_full` up to its terminator: the branches in hexadecimal, up to the
    first zero byte of each. -/
def merkleBranchesFull (work : MerkleWork) : List UInt8 :=
  ascii "[" ++
    (List.intersperse (ascii ",")
      (work.branchesHex.map fun hex => ascii "\"" ++ Buffer.cString hex ++ ascii "\"")).flatten ++
    ascii "]" ++ [0]

/-! ## One level -/

section Level

variable {doubleSha : List UInt8 → Hash32} {txns : List MerkleTxn}

/-- The node behind the first one at a place of the level: a transaction, or what
    the level before left. -/
def levelNode (txns : List MerkleTxn) (level : MerkleLevel) (templist : Nat → Hash32) (j : Nat) :
    Hash32 :=
  if level.q = 0 then txidBinAt txns j else templist (level.currentLevel + (j + 1))

/-- Where that is read. -/
def levelAccess (level : MerkleLevel) (j : Nat) : MerkleAccess :=
  if level.q = 0 then .readTxn j else .readLevel level.q (level.currentLevel + (j + 1))

/-- The second node of a pair: the last one is taken twice. -/
def secondOf (level : MerkleLevel) (i : Nat) : Nat :=
  if level.levelNeedsDupe && i == level.nextLevelSize - 1 then 2 * i - 1 else 2 * i

/-- What one turn of the loop touches. -/
def nodeAccesses (level : MerkleLevel) (i : Nat) : List MerkleAccess :=
  if i = 0 then [levelAccess level 0, .storeBranch level.q]
  else [levelAccess level (2 * i - 1), levelAccess level (secondOf level i),
    .writeLevel level.q (level.nextLevel + i)]

/-- The first turn stores the first node as a branch. -/
theorem merkleNode_zero {level : MerkleLevel} (work : MerkleWork)
    (hfirst : (level.levelNeedsDupe && 0 == level.nextLevelSize - 1) = false) :
    (merkleNode doubleSha txns level work 0).templist = work.templist ∧
    (merkleNode doubleSha txns level work 0).branchesBin =
      work.branchesBin ++ [levelNode txns level work.templist 0] ∧
    (merkleNode doubleSha txns level work 0).accesses =
      work.accesses ++ nodeAccesses level 0 := by
  unfold merkleNode levelNode nodeAccesses levelAccess
  by_cases hq : level.q = 0
  · simp [hq]
  · simp [hq, hfirst]

/-- Every other turn writes a node of the next level. -/
theorem merkleNode_succ {level : MerkleLevel} (work : MerkleWork) {i : Nat} (hi : i ≠ 0) :
    (merkleNode doubleSha txns level work i).templist =
      Function.update work.templist (level.nextLevel + i)
        (doubleSha ((levelNode txns level work.templist (2 * i - 1)).bytes ++
          (levelNode txns level work.templist (secondOf level i)).bytes)) ∧
    (merkleNode doubleSha txns level work i).branchesBin = work.branchesBin ∧
    (merkleNode doubleSha txns level work i).accesses =
      work.accesses ++ nodeAccesses level i := by
  have hfirst : 2 * i - 1 + 1 = 2 * i := by omega
  unfold merkleNode levelNode nodeAccesses levelAccess secondOf
  by_cases hq : level.q = 0
  · simp [hi, hq]
  · by_cases hlast : (level.levelNeedsDupe && i == level.nextLevelSize - 1) = true
    · simp [hi, hq, hlast, hfirst]
    · simp [hi, hq, hlast, hfirst]

end Level

/-- The variables of the level that starts with so many nodes, the first one and the
    one put in for an even number not counted in. -/
def levelOf (q currentLevel nextLevel size : Nat) : MerkleLevel where
  q
  currentLevel
  nextLevel
  nextLevelSize := (size + 1) / 2
  levelNeedsDupe := size % 2 ≠ 0

/-- The level is behind the one before it. -/
def MerkleLevel.Apart (level : MerkleLevel) (size : Nat) : Prop :=
  level.q ≠ 0 → level.currentLevel + size ≤ level.nextLevel

section Turns

variable {doubleSha : List UInt8 → Hash32} {txns : List MerkleTxn}
  {q currentLevel nextLevel size : Nat}

theorem secondOf_levelOf {i : Nat} (hi : 0 < i) (hlt : i < (size + 1) / 2) :
    secondOf (levelOf q currentLevel nextLevel size) i =
      if 2 * i + 1 < size then 2 * i else 2 * i - 1 := by
  unfold secondOf levelOf
  by_cases hodd : size % 2 = 0
  · have hpair : 2 * i + 1 < size := by omega
    simp [hodd, hpair]
  · by_cases hlast : i = (size + 1) / 2 - 1
    · have hpair : ¬ 2 * i + 1 < size := by omega
      simp [hodd, hlast.symm, hpair]
    · have hpair : 2 * i + 1 < size := by omega
      simp [hodd, hlast, hpair]

/-- What is written behind the level is not read with it. -/
theorem levelNode_congr {level : MerkleLevel} {templist templist' : Nat → Hash32}
    (hapart : level.Apart size) (hsame : ∀ index, index ≤ level.nextLevel →
      templist' index = templist index) {j : Nat} (hj : j + 1 ≤ size) :
    levelNode txns level templist' j = levelNode txns level templist j := by
  unfold levelNode
  split_ifs with hq
  · rfl
  · have hplace := hapart hq
    exact hsame _ (by omega)

/-- The hash that a turn writes. -/
def pairHash (doubleSha : List UInt8 → Hash32) (txns : List MerkleTxn) (level : MerkleLevel)
    (templist : Nat → Hash32) (i : Nat) : Hash32 :=
  doubleSha ((levelNode txns level templist (2 * i - 1)).bytes ++
    (levelNode txns level templist (secondOf level i)).bytes)

/-- After some turns: the nodes that are written, the branch and the log. -/
structure AfterTurns (doubleSha : List UInt8 → Hash32) (txns : List MerkleTxn)
    (level : MerkleLevel) (work : MerkleWork) (turns : Nat) (work' : MerkleWork) : Prop where
  written : ∀ i, 0 < i → i < turns →
    work'.templist (level.nextLevel + i) = pairHash doubleSha txns level work.templist i
  kept : ∀ index, index ≤ level.nextLevel → work'.templist index = work.templist index
  branches : work'.branchesBin =
    work.branchesBin ++ if turns = 0 then [] else [levelNode txns level work.templist 0]
  accesses : work'.accesses =
    work.accesses ++ (List.range turns).flatMap (nodeAccesses level)

theorem afterTurns_foldl (hsize : 1 < size)
    (hapart : (levelOf q currentLevel nextLevel size).Apart size) (work : MerkleWork) {turns : Nat}
    (hturns : turns ≤ (size + 1) / 2) :
    AfterTurns doubleSha txns (levelOf q currentLevel nextLevel size) work turns
      ((List.range turns).foldl
        (merkleNode doubleSha txns (levelOf q currentLevel nextLevel size)) work) := by
  induction turns with
  | zero =>
    refine ⟨?_, fun _ _ => rfl, (List.append_nil _).symm, (List.append_nil _).symm⟩
    intro i _ hi
    cases hi
  | succ i ih =>
    have hbefore := ih (Nat.le_of_succ_le hturns)
    rw [List.range_succ, List.foldl_append]
    generalize (List.range i).foldl
      (merkleNode doubleSha txns (levelOf q currentLevel nextLevel size)) work = before at hbefore
    obtain ⟨hwritten, hkept, hbranches, haccesses⟩ := hbefore
    rw [List.foldl_cons, List.foldl_nil]
    by_cases hi : i = 0
    · subst hi
      have hfirst : ((levelOf q currentLevel nextLevel size).levelNeedsDupe &&
          0 == (levelOf q currentLevel nextLevel size).nextLevelSize - 1) = false := by
        unfold levelOf
        by_cases hodd : size % 2 = 0
        · simp [hodd]
        · have hmore : (size + 1) / 2 - 1 ≠ 0 := by omega
          simp [hodd, hmore.symm]
      obtain ⟨hlist, hbin, hlog⟩ := @merkleNode_zero doubleSha txns _ before hfirst
      refine ⟨?_, ?_, ?_, ?_⟩
      · intro j hj hlt
        omega
      · intro index hindex
        rw [hlist, hkept index hindex]
      · rw [hbin, hbranches, if_pos rfl, List.append_nil, if_neg (Nat.succ_ne_zero 0),
          levelNode_congr hapart hkept (by omega)]
      · rw [hlog, haccesses, List.append_assoc, List.range_succ, List.flatMap_append,
          List.flatMap_singleton]
    · obtain ⟨hlist, hbin, hlog⟩ := @merkleNode_succ doubleSha txns
        (levelOf q currentLevel nextLevel size) before i hi
      have hsecond : secondOf (levelOf q currentLevel nextLevel size) i + 1 ≤ size := by
        rw [secondOf_levelOf (by omega) (by omega)]
        split_ifs <;> omega
      refine ⟨?_, ?_, ?_, ?_⟩
      · intro j hj hlt
        rw [hlist]
        by_cases hlast : j = i
        · subst hlast
          rw [Function.update_self, levelNode_congr hapart hkept (by omega),
            levelNode_congr hapart hkept hsecond]
          rfl
        · rw [Function.update_of_ne (by omega)]
          exact hwritten j hj (by omega)
      · intro index hindex
        rw [hlist, Function.update_of_ne (by omega), hkept index hindex]
      · rw [hbin, hbranches, if_neg hi, if_neg (Nat.succ_ne_zero i)]
      · rw [hlog, haccesses, List.range_succ, List.flatMap_append, List.append_assoc,
          List.flatMap_singleton]

end Turns

/-! ## All levels -/

/-- The hash of two nodes. -/
def combineNodes (doubleSha : List UInt8 → Hash32) (left right : Hash32) : Hash32 :=
  doubleSha (left.bytes ++ right.bytes)

/-- The level holds these nodes behind its first one. -/
def LevelHolds (txns : List MerkleTxn) (level : MerkleLevel) (templist : Nat → Hash32)
    (nodes : List Hash32) : Prop :=
  ∀ j node, nodes[j]? = some node → levelNode txns level templist j = node

/-- What the levels touch, from one of so many nodes on. -/
def levelAccesses (q currentLevel nextLevel size : Nat) : List MerkleAccess :=
  if size > 1 then
    (List.range ((size + 1) / 2)).flatMap
        (nodeAccesses (levelOf q currentLevel nextLevel size)) ++
      levelAccesses (q + 1) nextLevel (nextLevel + ((size + 1) / 2 + 1)) ((size + 1) / 2)
  else []
termination_by size

section Levels

variable {doubleSha : List UInt8 → Hash32} {txns : List MerkleTxn}
  {q currentLevel nextLevel size : Nat}

theorem merkleLevels_eq (hsize : 1 < size) (work : MerkleWork) :
    merkleLevels doubleSha txns q currentLevel nextLevel size work =
      merkleLevels doubleSha txns (q + 1) nextLevel (nextLevel + ((size + 1) / 2 + 1))
        ((size + 1) / 2)
        ((List.range ((size + 1) / 2)).foldl
          (merkleNode doubleSha txns (levelOf q currentLevel nextLevel size)) work) := by
  have hpadded : (if size % 2 ≠ 0 then size + 1 else size) / 2 = (size + 1) / 2 := by
    split_ifs <;> omega
  rw [merkleLevels, if_pos hsize]
  simp only [decide_eq_true_eq, hpadded]
  rfl

/-- The turns leave the pairs of the nodes for the next level. -/
theorem AfterTurns.levelHolds {work work' : MerkleWork} {nodes : List Hash32}
    (h : AfterTurns doubleSha txns (levelOf q currentLevel nextLevel size) work
      ((size + 1) / 2) work')
    (hholds : LevelHolds txns (levelOf q currentLevel nextLevel size) work.templist nodes)
    (hlen : nodes.length + 1 = size) (following size' : Nat) :
    LevelHolds txns (levelOf (q + 1) nextLevel following size') work'.templist
      (Merkle.pairUp (combineNodes doubleSha) nodes.tail) := by
  intro j node hnode
  have hj : 2 * j < nodes.tail.length := by
    have hlt := (List.getElem?_eq_some_iff.mp hnode).1
    rw [Merkle.length_pairUp] at hlt
    omega
  have htail : nodes.tail.length = nodes.length - 1 := List.length_tail
  have hlt : j + 1 < (size + 1) / 2 := by omega
  rw [Merkle.getElem?_pairUp _ hj] at hnode
  obtain rfl := Option.some.inj hnode
  show work'.templist (nextLevel + (j + 1)) = _
  refine (h.written (j + 1) (Nat.succ_pos j) hlt).trans ?_
  have hfirst : levelNode txns (levelOf q currentLevel nextLevel size) work.templist
      (2 * (j + 1) - 1) = nodes.tail[2 * j] := by
    apply hholds
    rw [List.getElem_tail]
    exact List.getElem?_eq_getElem _
  have hsecond : levelNode txns (levelOf q currentLevel nextLevel size) work.templist
      (secondOf (levelOf q currentLevel nextLevel size) (j + 1)) =
        (nodes.tail[2 * j + 1]?).getD nodes.tail[2 * j] := by
    rw [secondOf_levelOf (Nat.succ_pos j) hlt]
    split_ifs with hpair
    · have hin : 2 * j + 1 < nodes.tail.length := by omega
      apply hholds
      rw [List.getElem?_eq_getElem hin, Option.getD_some, List.getElem_tail]
      exact List.getElem?_eq_getElem _
    · rw [List.getElem?_eq_none (by omega), Option.getD_none]
      exact hfirst
  rw [pairHash, hfirst, hsecond]
  rfl

theorem merkleLevels_spec (nodes : List Hash32) (work : MerkleWork)
    (hholds : LevelHolds txns (levelOf q currentLevel nextLevel size) work.templist nodes)
    (hlen : nodes.length + 1 = size)
    (hapart : (levelOf q currentLevel nextLevel size).Apart size) :
    (merkleLevels doubleSha txns q currentLevel nextLevel size work).branchesBin =
        work.branchesBin ++ Merkle.branches (combineNodes doubleSha) nodes ∧
      (merkleLevels doubleSha txns q currentLevel nextLevel size work).accesses =
        work.accesses ++ levelAccesses q currentLevel nextLevel size := by
  induction size using Nat.strong_induction_on generalizing q currentLevel nextLevel nodes work with
  | _ size ih =>
    cases nodes with
    | nil =>
      obtain rfl : size = 1 := hlen.symm
      have hstop : ¬ 1 > 1 := by decide
      rw [merkleLevels, if_neg hstop, levelAccesses, if_neg hstop, Merkle.branches,
        List.append_nil, List.append_nil]
      exact ⟨rfl, rfl⟩
    | cons node rest =>
      rw [List.length_cons] at hlen
      have hsize : 1 < size := by omega
      have hturns := @afterTurns_foldl doubleSha txns q currentLevel nextLevel size hsize hapart
        work _ le_rfl
      rw [merkleLevels_eq hsize]
      generalize (List.range ((size + 1) / 2)).foldl
        (merkleNode doubleSha txns (levelOf q currentLevel nextLevel size)) work = work' at hturns
      have hnext := hturns.levelHolds hholds hlen (nextLevel + ((size + 1) / 2 + 1))
        ((size + 1) / 2)
      have hcount : (Merkle.pairUp (combineNodes doubleSha) (node :: rest).tail).length + 1 =
          (size + 1) / 2 := by
        rw [Merkle.length_pairUp, List.tail_cons]
        omega
      obtain ⟨hbranches, haccesses⟩ := ih ((size + 1) / 2) (by omega) _ work' hnext hcount
        (fun _ => by
          show nextLevel + (size + 1) / 2 ≤ _
          exact Nat.add_le_add_left (Nat.le_succ _) _)
      have hnode : levelNode txns (levelOf q currentLevel nextLevel size) work.templist 0 = node :=
        hholds 0 node rfl
      constructor
      · rw [hbranches, hturns.branches, if_neg (by omega), hnode, List.append_assoc,
          Merkle.branches]
        rfl
      · rw [haccesses, hturns.accesses, List.append_assoc]
        conv_rhs => rw [levelAccesses, if_pos hsize]

end Levels

/-! ## The root -/

section Root

variable (doubleSha : List UInt8 → Hash32) (txns : List MerkleTxn)

/-- The work of the levels, where there are transactions. -/
theorem calculateMerkleBranches_eq (scratch : Nat → Hash32) (hcount : txns.length ≤ 16383) :
    ∃ work, calculateMerkleBranches doubleSha txns scratch = some work ∧
      work.branchesBin =
        Merkle.branches (combineNodes doubleSha) (txns.map MerkleTxn.txidBin) ∧
      work.accesses = levelAccesses 0 0 0 (txns.length + 1) := by
  unfold calculateMerkleBranches
  dsimp only
  rw [if_neg (Nat.not_lt.mpr hcount)]
  by_cases hnone : txns.length = 0
  · rw [if_pos hnone, List.length_eq_zero_iff.mp hnone]
    refine ⟨_, rfl, ?_, ?_⟩
    · rw [List.map_nil, Merkle.branches]
    · rw [levelAccesses]
      rfl
  · rw [if_neg hnone]
    have hholds : LevelHolds txns (levelOf 0 0 0 (txns.length + 1)) scratch
        (txns.map MerkleTxn.txidBin) := by
      intro j node hnode
      rw [List.getElem?_map] at hnode
      show ((txns[j]?).map MerkleTxn.txidBin).getD _ = node
      rw [hnode, Option.getD_some]
    obtain ⟨hbranches, haccesses⟩ := @merkleLevels_spec doubleSha txns 0 0 0 (txns.length + 1)
      (txns.map MerkleTxn.txidBin)
      { templist := scratch, branchesBin := [], branchesHex := [], accesses := [] } hholds
      (by rw [List.length_map]) (fun hq => absurd rfl hq)
    exact ⟨_, rfl, hbranches, haccesses⟩

theorem jobMerkleRootCalc_eq (branches : List Hash32) (coinbaseTxnHash : Hash32) :
    jobMerkleRootCalc doubleSha branches coinbaseTxnHash =
      branches.foldl (combineNodes doubleSha) coinbaseTxnHash := by
  cases branches with
  | nil => rfl
  | cons branch rest => rfl

/-- The branches lead every coinbase to the root over it and the transactions. -/
theorem treeRoot_eq_jobMerkleRootCalc (scratch : Nat → Hash32) (hcount : txns.length ≤ 16383) :
    ∃ work, calculateMerkleBranches doubleSha txns scratch = some work ∧
      ∀ coinbaseTxnHash,
        Merkle.treeRoot (combineNodes doubleSha)
            (coinbaseTxnHash :: txns.map MerkleTxn.txidBin) =
          some (jobMerkleRootCalc doubleSha work.branchesBin coinbaseTxnHash) := by
  obtain ⟨work, hwork, hbranches, -⟩ := calculateMerkleBranches_eq doubleSha txns scratch hcount
  refine ⟨work, hwork, ?_⟩
  intro coinbaseTxnHash
  rw [Merkle.treeRoot_cons, jobMerkleRootCalc_eq, hbranches, Merkle.foldl_branches]

end Root

/-- A hash that mixes the first bytes of the two halves of its input. -/
def mixHash (bytes : List UInt8) : Hash32 :=
  ⟨List.replicate 32 (bytes.getD 0 0 + 2 * bytes.getD 32 0), List.length_replicate⟩

/-- Transactions whose hashes are their numbers. -/
def numberedTxns (count : Nat) : List MerkleTxn :=
  (List.range count).map fun i =>
    { txidBin := ⟨Wire.leBytes 32 (i + 1), Wire.length_leBytes 32 (i + 1)⟩
      txidHex := Hex.encode (Wire.leBytes 32 (i + 1)).reverse }

theorem treeRoot_numberedTxns :
    ∃ work, calculateMerkleBranches mixHash (numberedTxns 4) (fun _ => mixHash []) =
        some work ∧
      ∀ coinbaseTxnHash,
        Merkle.treeRoot (combineNodes mixHash)
            (coinbaseTxnHash :: (numberedTxns 4).map MerkleTxn.txidBin) =
          some (jobMerkleRootCalc mixHash work.branchesBin coinbaseTxnHash) :=
  treeRoot_eq_jobMerkleRootCalc mixHash (numberedTxns 4) (fun _ => mixHash [])
    (by decide)

/-- The branches of a job are what is calculated from its template. -/
theorem merkleBranches_eq_calculated (sha256 : List UInt8 → Hash32) (job : StratumJob)
    (txidHex : TemplateTxn → List UInt8) (scratch : Nat → Hash32) :
    (calculateMerkleBranches (doubleSha256 sha256)
        (job.blockTemplate.txns.map fun txn => ⟨txn.txidBin, txidHex txn⟩) scratch).map
      MerkleWork.branchesBin = some (merkleBranches sha256 job) := by
  have hcount : (job.blockTemplate.txns.map fun txn =>
      (⟨txn.txidBin, txidHex txn⟩ : MerkleTxn)).length ≤ 16383 := by
    rw [List.length_map]
    exact job.blockTemplate.txns_length_le
  obtain ⟨work, hwork, hbranches, -⟩ :=
    calculateMerkleBranches_eq (doubleSha256 sha256) _ scratch hcount
  rw [hwork, Option.map_some, hbranches, List.map_map]
  rfl

end ChirpGateway
