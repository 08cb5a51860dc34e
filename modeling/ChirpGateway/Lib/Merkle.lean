import Mathlib.Algebra.Group.Nat.Defs
import Mathlib.Data.List.Basic

/-!
# Merkle trees

The tree that pairs the last node of an odd level with itself, over any hash of
two nodes, and the branches that lead from its first leaf to the root.
-/

namespace Merkle

variable {H : Type} (combine : H → H → H)

/-- The next level: pairs are combined, a last one with itself. -/
def pairUp : List H → List H
  | [] => []
  | [a] => [combine a a]
  | a :: b :: rest => combine a b :: pairUp rest

theorem length_pairUp (nodes : List H) :
    (pairUp combine nodes).length = (nodes.length + 1) / 2 := by
  induction nodes using pairUp.induct with
  | case1 => simp [pairUp]
  | case2 a => simp [pairUp]
  | case3 a b rest ih =>
    rw [pairUp, List.length_cons, ih, List.length_cons, List.length_cons]
    omega

theorem getElem?_pairUp {nodes : List H} {i : Nat} (h : 2 * i < nodes.length) :
    (pairUp combine nodes)[i]? =
      some (combine nodes[2 * i] ((nodes[2 * i + 1]?).getD nodes[2 * i])) := by
  induction nodes using pairUp.induct generalizing i with
  | case1 => cases h
  | case2 a =>
    have hi : i = 0 := by
      rw [List.length_singleton] at h
      omega
    subst hi
    rfl
  | case3 a b rest ih =>
    cases i with
    | zero => rfl
    | succ i =>
      have hrest : 2 * i < rest.length := by
        rw [List.length_cons, List.length_cons] at h
        omega
      rw [pairUp, List.getElem?_cons_succ, ih hrest]
      rfl

/-- The root of a tree: level by level, until one node is left. -/
def treeRoot : List H → Option H
  | [] => none
  | [node] => some node
  | a :: b :: rest => treeRoot (pairUp combine (a :: b :: rest))
termination_by nodes => nodes.length
decreasing_by
  rw [length_pairUp, List.length_cons, List.length_cons]
  omega

/-- The root over a level: its first node and those behind it. -/
def root (first : H) : List H → H
  | [] => first
  | a :: rest => root (combine first a) (pairUp combine rest)
termination_by rest => rest.length
decreasing_by
  rw [length_pairUp, List.length_cons]
  omega

/-- What the first leaf is combined with, from the bottom up. The nodes are those
    behind the first one. -/
def branches : List H → List H
  | [] => []
  | a :: rest => a :: branches (pairUp combine rest)
termination_by rest => rest.length
decreasing_by
  rw [length_pairUp, List.length_cons]
  omega

/-- The branches lead every first leaf to its root. -/
theorem foldl_branches (first : H) (rest : List H) :
    (branches combine rest).foldl combine first = root combine first rest := by
  fun_induction root combine first rest with
  | case1 first => rw [branches]; rfl
  | case2 first a rest ih => rw [branches, List.foldl_cons, ih]

theorem treeRoot_cons (first : H) (rest : List H) :
    treeRoot combine (first :: rest) = some (root combine first rest) := by
  fun_induction root combine first rest with
  | case1 first => rw [treeRoot]
  | case2 first a rest ih => rw [treeRoot, pairUp, ih]

/-- A tree of at most `2 ^ height` leaves has no more than so many levels. -/
theorem length_branches_le {height : Nat} {rest : List H} (h : rest.length < 2 ^ height) :
    (branches combine rest).length ≤ height := by
  induction height generalizing rest with
  | zero =>
    rw [Nat.pow_zero, Nat.lt_one_iff, List.length_eq_zero_iff] at h
    rw [h, branches]
    exact Nat.le_refl _
  | succ height ih =>
    cases rest with
    | nil =>
      rw [branches]
      exact Nat.zero_le _
    | cons a rest =>
      rw [branches, List.length_cons]
      apply Nat.succ_le_succ
      apply ih
      rw [List.length_cons, Nat.pow_succ] at h
      rw [length_pairUp]
      omega

/-- A node that swallows every other one reaches the root. -/
theorem root_of_combine_eq {first : H} (hfirst : ∀ node, combine first node = first)
    (rest : List H) : root combine first rest = first := by
  rw [← foldl_branches, List.foldl_fixed' hfirst]

theorem branches_eq_nil_iff (rest : List H) : branches combine rest = [] ↔ rest = [] := by
  cases rest with
  | nil => rw [branches]
  | cons a rest => rw [branches]; simp

end Merkle
