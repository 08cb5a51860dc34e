import ChirpGateway.Chirp.Engine
import ChirpGateway.Lib.Ranking

/-!
# Who is drawn

What `chirp_weighted_draw` (`datum_chirp.c:105-125`) returns, where no two drawable
members have the same key: it depends on who is in the list and on nothing else.
-/

namespace ChirpGateway

open Ranking

/-- Who takes part in a draw. -/
def drawable (cands : List ChirpCand) : List ChirpCand :=
  cands.filter fun c => 0 < c.weight

section Draw

variable {K : Type} [LinearOrder K]

/-- The key of a candidate. -/
def candKey (drawKey : Nat → List UInt8 → Rat → K) (seed : UInt64) (c : ChirpCand) : K :=
  drawKey seed.toNat c.addr.bytes c.weight

/-- No two drawable candidates have the same key. -/
def DistinctKeys (drawKey : Nat → List UInt8 → Rat → K) (seed : UInt64)
    (cands : List ChirpCand) : Prop :=
  (drawable cands).Pairwise fun a b => candKey drawKey seed a ≠ candKey drawKey seed b

/-- The draw as a function of the set of candidates. -/
structure DrawsFromSet (qsort : Qsort.Sorter (K × ChirpCand))
    (drawKey : Nat → List UInt8 → Rat → K) (seed : UInt64) (cands : List ChirpCand) :
    Prop where
  count : ∀ n, (chirpWeightedDraw qsort drawKey cands seed n).length =
    min n (drawable cands).length
  /-- no place of the list is drawn twice -/
  once : ∀ n, (chirpWeightedDraw qsort drawKey cands seed n).Subperm (drawable cands)
  decreasing : ∀ n, (chirpWeightedDraw qsort drawKey cands seed n).Pairwise fun a b =>
    candKey drawKey seed b < candKey drawKey seed a
  largest : ∀ n, ∀ out ∈ drawable cands,
    out ∉ chirpWeightedDraw qsort drawKey cands seed n →
    ∀ drawn ∈ chirpWeightedDraw qsort drawKey cands seed n,
      candKey drawKey seed out < candKey drawKey seed drawn
  /-- whoever draws, and in whatever order the list is -/
  perm : ∀ (other : Qsort.Sorter (K × ChirpCand)) cands', cands'.Perm cands → ∀ n,
    chirpWeightedDraw other drawKey cands' seed n = chirpWeightedDraw qsort drawKey cands seed n
  isPrefix : ∀ n, chirpWeightedDraw qsort drawKey cands seed n <+:
    chirpWeightedDraw qsort drawKey cands seed (n + 1)
  /-- without one of the candidates, whose place may have been anywhere -/
  without : ∀ front new back, cands = front ++ new :: back → ∀ n,
    chirpWeightedDraw qsort drawKey cands seed n =
        chirpWeightedDraw qsort drawKey (front ++ back) seed n ∨
      ∃ before after,
        chirpWeightedDraw qsort drawKey cands seed n = before ++ new :: after ∧
        before ++ after = chirpWeightedDraw qsort drawKey (front ++ back) seed (n - 1)

variable (qsort : Qsort.Sorter (K × ChirpCand)) {drawKey : Nat → List UInt8 → Rat → K}
  {seed : UInt64} {cands : List ChirpCand}

theorem ranked_chirpDrawOrder (h : DistinctKeys drawKey seed cands) :
    Ranked (candKey drawKey seed) (chirpDrawOrder qsort drawKey cands seed) := by
  apply ranked_of_distinct (chirpDrawOrder_sorted qsort drawKey cands seed)
  have hsymm {a b : ChirpCand} (hab : candKey drawKey seed a ≠ candKey drawKey seed b) :
      candKey drawKey seed b ≠ candKey drawKey seed a := hab.symm
  exact (chirpDrawOrder_perm qsort drawKey cands seed).symm.pairwise h hsymm

/-- The order of the draw is that of the keys, whatever the order of the list. -/
theorem chirpDrawOrder_eq_of_perm (other : Qsort.Sorter (K × ChirpCand))
    (h : DistinctKeys drawKey seed cands) {cands' : List ChirpCand}
    (hperm : cands'.Perm cands) :
    chirpDrawOrder other drawKey cands' seed = chirpDrawOrder qsort drawKey cands seed := by
  have hdrawable : (drawable cands').Perm (drawable cands) := hperm.filter _
  have hdistinct : DistinctKeys drawKey seed cands' :=
    hdrawable.symm.pairwise h fun hab => hab.symm
  apply (ranked_chirpDrawOrder other hdistinct).eq_of_perm (ranked_chirpDrawOrder qsort h)
  calc chirpDrawOrder other drawKey cands' seed
    _ |>.Perm (drawable cands') := chirpDrawOrder_perm other drawKey cands' seed
    _ |>.Perm (drawable cands) := hdrawable
    _ |>.Perm (chirpDrawOrder qsort drawKey cands seed) :=
      (chirpDrawOrder_perm qsort drawKey cands seed).symm

omit [LinearOrder K] in
theorem DistinctKeys.sublist (h : DistinctKeys drawKey seed cands) {fewer : List ChirpCand}
    (hfewer : fewer.Sublist cands) : DistinctKeys drawKey seed fewer :=
  List.Pairwise.sublist (hfewer.filter _) h

/-- Where no two keys are equal, the draw depends only on the set of candidates. -/
theorem drawsFromSet_of_distinctKeys (drawKey : Nat → List UInt8 → Rat → K) (seed : UInt64)
    (cands : List ChirpCand) (h : DistinctKeys drawKey seed cands) :
    DrawsFromSet qsort drawKey seed cands := by
  have hranked := ranked_chirpDrawOrder qsort h
  have hperm := chirpDrawOrder_perm qsort drawKey cands seed
  refine ⟨?_, ?_, ?_, ?_, ?_, ?_, ?_⟩
  · intro n
    rw [chirpWeightedDraw_eq_take, List.length_take, hperm.length_eq]
    rfl
  · intro n
    rw [chirpWeightedDraw_eq_take]
    exact (List.take_sublist n _).subperm.trans hperm.subperm
  · intro n
    rw [chirpWeightedDraw_eq_take]
    exact hranked.sublist (List.take_sublist n _)
  · intro n out hout hleft drawn hdrawn
    rw [chirpWeightedDraw_eq_take] at hleft hdrawn
    exact hranked.lt_of_notMem_take (hperm.mem_iff.mpr hout) hleft hdrawn
  · intro other cands' hcands' n
    rw [chirpWeightedDraw_eq_take, chirpWeightedDraw_eq_take,
      chirpDrawOrder_eq_of_perm qsort other h hcands']
  · intro n
    rw [chirpWeightedDraw_eq_take, chirpWeightedDraw_eq_take]
    exact List.take_prefix_take_left (Nat.le_succ n)
  · rintro front new back rfl n
    have hrest : DistinctKeys drawKey seed (front ++ back) :=
      h.sublist ((List.sublist_cons_self new back).append_left front)
    simp only [chirpWeightedDraw_eq_take]
    by_cases hnew : 0 < new.weight
    · apply (ranked_chirpDrawOrder qsort hrest).take_insert hranked
      have hmiddle : (drawable (front ++ new :: back)).Perm (new :: drawable (front ++ back)) := by
        simp only [drawable, List.filter_append, List.filter_cons, hnew, decide_true, if_true]
        exact List.perm_middle
      exact hperm.trans (hmiddle.trans
        ((chirpDrawOrder_perm qsort drawKey (front ++ back) seed).symm.cons new))
    · left
      have hsame : drawable (front ++ new :: back) = drawable (front ++ back) := by
        simp only [drawable, List.filter_append, List.filter_cons, hnew, decide_false,
          Bool.false_eq_true, if_false]
      have horder : chirpDrawOrder qsort drawKey (front ++ new :: back) seed =
          chirpDrawOrder qsort drawKey (front ++ back) seed := by
        unfold chirpDrawOrder chirpKeyed
        exact congrArg (fun members => (qsort.sort keyedCmpDesc (List.map _ members)).map Prod.snd)
          hsame
      rw [horder]

end Draw

/-- Two members of unequal weight, drawn by it. -/
def unequalMembers : List ChirpCand :=
  [{ addr := .copy (Bytes.ascii "bc1q"), weight := 1 / 2, activeSecs := 86400, power := 10 },
    { addr := .copy (Bytes.ascii "bc1p"), weight := 3 / 4, activeSecs := 172800, power := 10 }]

theorem drawsFromSet_unequalMembers :
    DrawsFromSet (Qsort.insertionSorter (Rat × ChirpCand)) (fun _ _ weight => weight) 7
      unequalMembers :=
  drawsFromSet_of_distinctKeys _ _ _ _ (by
    unfold DistinctKeys drawable unequalMembers
    decide +kernel)

end ChirpGateway
