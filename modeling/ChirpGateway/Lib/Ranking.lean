import Mathlib.Data.List.Sort

/-!
# Rankings by a key

A list in strictly decreasing order of a key is determined by its elements. Its
first part holds the largest keys, and one more element goes in at its place and
moves those behind it on by one.
-/

namespace Ranking

universe u v

variable {α : Type u} {K : Type v} [LinearOrder K] {key : α → K} {ranking ranking' : List α}

/-- The largest key first, no key twice. -/
def Ranked (key : α → K) (ranking : List α) : Prop :=
  ranking.Pairwise fun a b => key b < key a

theorem ranked_of_distinct (hsorted : ranking.Pairwise fun a b => key b ≤ key a)
    (hdistinct : ranking.Pairwise fun a b => key a ≠ key b) : Ranked key ranking := by
  refine (hsorted.and hdistinct).imp ?_
  intro a b hab
  exact lt_of_le_of_ne hab.1 hab.2.symm

theorem Ranked.eq_of_perm (h : Ranked key ranking) (h' : Ranked key ranking')
    (hperm : ranking.Perm ranking') : ranking = ranking' := by
  refine List.Perm.eq_of_pairwise ?_ h h' hperm
  intro a b _ _ hab hba
  exact absurd hab (not_lt.mpr hba.le)

theorem Ranked.nodup (h : Ranked key ranking) : ranking.Nodup := by
  refine h.imp ?_
  rintro a b hab rfl
  exact lt_irrefl _ hab

/-- What is left out of a first part has a smaller key than all of it. -/
theorem Ranked.lt_of_notMem_take (h : Ranked key ranking) {n : Nat} {out top : α}
    (hout : out ∈ ranking) (hleft : out ∉ ranking.take n) (htop : top ∈ ranking.take n) :
    key out < key top := by
  unfold Ranked at h
  rw [← List.take_append_drop n ranking] at h hout
  have hdrop : out ∈ ranking.drop n := (List.mem_append.mp hout).resolve_left hleft
  exact (List.pairwise_append.mp h).2.2 top htop out hdrop

/-- With one element more, a first part is the same as before, or it has that element
    in it and one of the others less. -/
theorem Ranked.take_insert (h : Ranked key ranking) (h' : Ranked key ranking') {new : α}
    (hperm : ranking'.Perm (new :: ranking)) (n : Nat) :
    ranking'.take n = ranking.take n ∨
      ∃ before after, ranking'.take n = before ++ new :: after ∧
        before ++ after = ranking.take (n - 1) := by
  obtain ⟨before, after, rfl⟩ := List.append_of_mem (hperm.mem_iff.mpr List.mem_cons_self)
  have hrest : ranking = before ++ after := by
    apply h.eq_of_perm
    · exact h'.sublist (List.Sublist.append_left (List.sublist_cons_self _ _) _)
    · exact (List.perm_middle.symm.trans hperm).symm.cons_inv
  subst hrest
  by_cases hn : n ≤ before.length
  · left
    rw [List.take_append_of_le_length hn, List.take_append_of_le_length hn]
  · obtain ⟨more, rfl⟩ : ∃ more, n = before.length + (more + 1) :=
      ⟨n - before.length - 1, by omega⟩
    refine .inr ⟨before, after.take more, ?_, ?_⟩
    · rw [List.take_length_add_append, List.take_succ_cons]
    · rw [← Nat.add_assoc, Nat.add_sub_cancel, List.take_length_add_append]

end Ranking
