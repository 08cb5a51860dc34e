import ChirpGateway.Stratum.Dupes
import Mathlib.Data.Finset.Card
import Mathlib.Data.List.Perm.Subperm

/-!
# The clean-up of the table

What `datum_stratum_dupes_cleanup` keeps, and that it rebuilds every chain.
-/

namespace ChirpGateway

open SlotChain

/-! ## The first stale item -/

/-- A bisection of a range that is stale from some place on finds it. -/
theorem bisect_eq {stale : Nat → Bool} {n place : Nat}
    (hfresh : ∀ i < place, stale i = false) (hstale : ∀ i < n, place ≤ i → stale i = true)
    {fuel : Nat} {low high result : Int} (hlow : 0 ≤ low) (hhigh : high < n)
    (hbelow : low ≤ place)
    (habove : place ≤ high + 1) (hfuel : high + 1 - low ≤ fuel)
    (hresult : result = if high + 1 = n then -1 else high + 1) :
    bisect stale fuel low high result = if place = n then -1 else (place : Int) := by
  induction fuel generalizing low high result with
  | zero =>
    have hend : high + 1 = place := by omega
    rw [bisect, hresult, hend]
    split <;> split <;> omega
  | succ fuel ih =>
    rw [bisect]
    by_cases hrange : low ≤ high
    · rw [if_pos hrange]
      have hmid : low ≤ low + (high - low) / 2 ∧ low + (high - low) / 2 ≤ high := by omega
      generalize low + (high - low) / 2 = mid at hmid
      have hcast : (mid.toNat : Int) = mid := Int.toNat_of_nonneg (by omega)
      by_cases hmidPlace : place ≤ mid.toNat
      · rw [if_pos (hstale _ (by omega) hmidPlace)]
        refine ih hlow (by omega) hbelow (by omega) (by omega) ?_
        rw [if_neg (by omega)]
        omega
      · rw [if_neg (by rw [hfresh _ (by omega)]; exact Bool.false_ne_true)]
        exact ih (by omega) hhigh (by omega) habove (by omega) hresult
    · rw [if_neg hrange, hresult]
      have hend : high + 1 = place := by omega
      rw [hend]
      split <;> split <;> omega

theorem findFirstLessThan_eq {env : DupeEnv} {share : Nat → DupeShare} {n place : Nat}
    (hplace : place ≤ n) (hfresh : ∀ i < place, env.isStale (share i) = false)
    (hstale : ∀ i < n, place ≤ i → env.isStale (share i) = true) :
    findFirstLessThan env share n = if place = n then -1 else (place : Int) := by
  apply bisect_eq hfresh hstale (Int.le_refl 0) (by omega) (by omega) (by omega) (by omega)
  rw [if_pos (by omega)]

/-! ## The sort -/

/-- A later job ranks higher, and no job is last. -/
def DupeEnv.jobRank (env : DupeEnv) (share : DupeShare) : Nat :=
  match env.jobTime share with
  | none => 0
  | some tsms => tsms.toNat + 1

theorem dupeCompare_le_iff (env : DupeEnv) (item1 item2 : DupeItem) :
    dupeCompare env item1 item2 ≤ 0 ↔ env.jobRank item2.share ≤ env.jobRank item1.share := by
  unfold dupeCompare DupeEnv.jobRank
  cases env.jobTime item1.share with
  | none =>
    cases env.jobTime item2.share with
    | none => simp
    | some tsms2 => simp
  | some tsms1 =>
    cases env.jobTime item2.share with
    | none => simp
    | some tsms2 =>
      simp only [gt_iff_lt, UInt64.lt_iff_toNat_lt]
      split_ifs <;> omega

theorem consistent_dupeCompare (env : DupeEnv) : Qsort.Consistent (dupeCompare env) :=
  Qsort.consistent_of_key (fun item => env.jobRank item.share) (dupeCompare_le_iff env)

/-- Behind a stale share there are stale ones only. -/
theorem isStale_of_jobRank_le {env : DupeEnv} {share other : DupeShare}
    (hrank : env.jobRank other ≤ env.jobRank share) (hstale : env.isStale share = true) :
    env.isStale other = true := by
  unfold DupeEnv.isStale at hstale ⊢
  unfold DupeEnv.jobRank at hrank
  rw [decide_eq_true_eq, UInt64.lt_iff_toNat_lt] at hstale ⊢
  cases hother : env.jobTime other with
  | none =>
    have hzero : (0 : UInt64).toNat = 0 := rfl
    rw [Option.getD_none, hzero]
    omega
  | some tsms =>
    cases hshare : env.jobTime share with
    | none =>
      rw [hother, hshare] at hrank
      exact absurd hrank (Nat.not_succ_le_zero _)
    | some tsms' =>
      rw [hother, hshare] at hrank
      rw [hshare] at hstale
      have htsms : tsms.toNat + 1 ≤ tsms'.toNat + 1 := hrank
      simp only [Option.getD_some] at hstale ⊢
      omega

/-! ## What is stored -/

/-- The first slots hold these shares, each once. -/
def Stores (share : Nat → DupeShare) (n : Nat) (live : Finset DupeShare) : Prop :=
  ((List.range n).map share).Nodup ∧ ((List.range n).map share).toFinset = live

section Stores

variable {share share' : Nat → DupeShare} {n : Nat} {live : Finset DupeShare}

theorem Stores.card (h : Stores share n live) : live.card = n := by
  rw [← h.2, List.toFinset_card_of_nodup h.1, List.length_map, List.length_range]

theorem Stores.mem_iff (h : Stores share n live) (s : DupeShare) :
    s ∈ live ↔ ∃ i < n, share i = s := by
  rw [← h.2, List.mem_toFinset, List.mem_map]
  simp only [List.mem_range]

theorem Stores.congr (h : Stores share n live) (hshare : ∀ i < n, share' i = share i) :
    Stores share' n live := by
  have hmap : (List.range n).map share' = (List.range n).map share :=
    List.map_congr_left fun i hi => hshare i (List.mem_range.mp hi)
  rwa [Stores, hmap]

theorem Stores.snoc (h : Stores share n live) (hnew : share n ∉ live) :
    Stores share (n + 1) (insert (share n) live) := by
  have hmap : (List.range (n + 1)).map share = (List.range n).map share ++ [share n] := by
    rw [List.range_succ, List.map_append, List.map_singleton]
  have hnot : share n ∉ (List.range n).map share := by
    rwa [← h.2, List.mem_toFinset] at hnew
  refine ⟨?_, ?_⟩
  · rw [hmap]
    exact List.nodup_append.mpr ⟨h.1, List.nodup_singleton _, fun a ha b hb heq =>
      hnot (by rwa [← List.mem_singleton.mp hb, ← heq])⟩
  · rw [hmap, ← h.2]
    ext s
    simp only [List.mem_toFinset, List.mem_append, List.mem_singleton, Finset.mem_insert]
    exact or_comm

/-- The slots in front of the first stale one hold what is not stale. -/
theorem Stores.filter (h : Stores share n live) {stale : DupeShare → Bool} {place : Nat}
    (hplace : place ≤ n) (hfresh : ∀ i < place, stale (share i) = false)
    (hstale : ∀ i < n, place ≤ i → stale (share i) = true) :
    Stores share place (live.filter fun s => stale s = false) := by
  refine ⟨h.1.sublist ((List.range_sublist.mpr hplace).map share), ?_⟩
  ext s
  rw [List.mem_toFinset, List.mem_map, Finset.mem_filter, h.mem_iff]
  simp only [List.mem_range]
  constructor
  · rintro ⟨i, hi, rfl⟩
    exact ⟨⟨i, by omega, rfl⟩, hfresh i hi⟩
  · rintro ⟨⟨i, hi, rfl⟩, hs⟩
    refine ⟨i, ?_, rfl⟩
    by_contra hge
    rw [hstale i hi (by omega)] at hs
    cases hs

end Stores

/-- A quarter more slots than so many. -/
def grown (maxItems : Nat) : Nat := maxItems * 125 / 100

/-- What a clean-up of a full table keeps. -/
def keptShares (env : DupeEnv) (live : Finset DupeShare) (capacity : Nat) : Finset DupeShare :=
  let fresh := live.filter fun share => env.isStale share = false
  if fresh.card < capacity * 95 / 100 then fresh else live

/-- The slots there are after it. -/
def keptCapacity (env : DupeEnv) (live : Finset DupeShare) (capacity : Nat) : Nat :=
  if (live.filter fun share => env.isStale share = false).card < capacity * 95 / 100 then capacity
  else grown capacity

namespace DupeTable

/-- The sort moves the items only. -/
theorem stores_sortItems {tbl : DupeTable} {live : Finset DupeShare}
    (h : Stores tbl.share tbl.maxItems live) (sorter : Qsort.Sorter DupeItem) (env : DupeEnv) :
    Stores (tbl.sortItems sorter env).share tbl.maxItems live := by
  have hperm := sorter.perm (dupeCompare env) ((List.range tbl.maxItems).map tbl.ptr)
  have hmap : (List.range tbl.maxItems).map (tbl.sortItems sorter env).share =
      (sorter.sort (dupeCompare env) ((List.range tbl.maxItems).map tbl.ptr)).map
        DupeItem.share := by
    apply List.ext_getElem
    · simp [hperm.length_eq]
    · intro i hi hi'
      rw [List.length_map] at hi'
      simp [sortItems, share, List.getD_eq_getElem?_getD, hi']
  have hshares : ((List.range tbl.maxItems).map (tbl.sortItems sorter env).share).Perm
      ((List.range tbl.maxItems).map tbl.share) := by
    rw [hmap]
    have hsame : (List.range tbl.maxItems).map tbl.share =
        ((List.range tbl.maxItems).map tbl.ptr).map DupeItem.share := by
      rw [List.map_map]
      rfl
    rw [hsame]
    exact hperm.map _
  exact ⟨hshares.nodup_iff.mpr h.1, (List.toFinset_eq_of_perm _ _ hshares).trans h.2⟩

/-- Behind a stale item of the sorted table there are stale ones only. -/
theorem isStale_sortItems {tbl : DupeTable} {sorter : Qsort.Sorter DupeItem} {env : DupeEnv}
    {i j : Nat} (hij : i ≤ j) (hj : j < tbl.maxItems)
    (hstale : env.isStale ((tbl.sortItems sorter env).share i) = true) :
    env.isStale ((tbl.sortItems sorter env).share j) = true := by
  rcases Nat.eq_or_lt_of_le hij with rfl | hlt
  · exact hstale
  · have hsorted := sorter.sorted _ ((List.range tbl.maxItems).map tbl.ptr)
      (consistent_dupeCompare env)
    have hlen := (sorter.perm (dupeCompare env) ((List.range tbl.maxItems).map tbl.ptr)).length_eq
    rw [List.length_map, List.length_range] at hlen
    have hi' := hlen ▸ Nat.lt_trans hlt hj
    have hj' := hlen ▸ hj
    have hcmp := List.pairwise_iff_getElem.mp hsorted i j hi' hj' hlt
    rw [dupeCompare_le_iff] at hcmp
    have hshare (k : Nat) (hk : k < (sorter.sort (dupeCompare env)
        ((List.range tbl.maxItems).map tbl.ptr)).length) :
        (tbl.sortItems sorter env).share k = (sorter.sort (dupeCompare env)
          ((List.range tbl.maxItems).map tbl.ptr))[k].share := by
      simp [sortItems, share, List.getD_eq_getElem?_getD, hk]
    rw [hshare i hi'] at hstale
    rw [hshare j hj']
    exact isStale_of_jobRank_le hcmp hstale

/-- After the sort there is a first stale item, or none. -/
theorem exists_firstStale (tbl : DupeTable) (sorter : Qsort.Sorter DupeItem) (env : DupeEnv) :
    ∃ place ≤ tbl.maxItems,
      (∀ i < place, env.isStale ((tbl.sortItems sorter env).share i) = false) ∧
      ∀ i < tbl.maxItems, place ≤ i →
        env.isStale ((tbl.sortItems sorter env).share i) = true := by
  have hends : ∃ i, tbl.maxItems ≤ i ∨
      env.isStale ((tbl.sortItems sorter env).share i) = true := ⟨_, Or.inl (Nat.le_refl _)⟩
  refine ⟨Nat.find hends, Nat.find_min' hends (Or.inl (Nat.le_refl _)), ?_, ?_⟩
  · intro i hi
    have hnot := Nat.find_min hends hi
    rw [not_or] at hnot
    exact Bool.eq_false_iff.mpr hnot.2
  · intro i hi hle
    rcases Nat.find_spec hends with hend | hstale
    · omega
    · exact isStale_sortItems hle hi hstale

/-! ## The chains -/

/-- Each of the first slots is in the chain of its nonce. -/
def Chained (tbl : DupeTable) (n : Nat) : Prop :=
  Filed tbl.index tbl.next tbl.nonceIndex tbl.nonce (· < n)

section Chained

variable {tbl tbl' : DupeTable} {n : Nat}

theorem Chained.congr (h : tbl.Chained n) (hshare : ∀ i < n, tbl'.share i = tbl.share i) :
    Filed tbl.index tbl.next tbl'.nonceIndex tbl'.nonce (· < n) := by
  refine Filed.congr h (fun i => Iff.rfl) (fun i hi => rfl) ?_ ?_
  · intro i hi
    rw [nonceIndex, nonceIndex, hshare i hi]
  · intro i hi
    rw [nonce, nonce, hshare i hi]

theorem succ_held (n i : Nat) : i < n + 1 ↔ i = n ∨ i < n := by omega

/-- Slot `n` becomes the first of its chain. -/
theorem Chained.push {slots : List Nat} (h : tbl.Chained n)
    (hshare : ∀ i < n, tbl'.share i = tbl.share i)
    (hlinked : Linked tbl.next (tbl.index (tbl'.nonceIndex n)) slots)
    (hrank : ∀ i ∈ slots, tbl'.nonce n ≤ tbl'.nonce i)
    (hindex : tbl'.index = Function.update tbl.index (tbl'.nonceIndex n) (some n))
    (hnext : tbl'.next = Function.update tbl.next n (tbl.index (tbl'.nonceIndex n))) :
    tbl'.Chained (n + 1) := by
  have hpush := (h.congr hshare).push (Nat.lt_irrefl n) hlinked hrank
  rw [Chained, hindex, hnext]
  exact hpush.congr (succ_held n) (fun _ _ => rfl) (fun _ _ => rfl) fun _ _ => rfl

/-- Slot `n` goes behind another one of its chain. -/
theorem Chained.insertAfter {prev : Nat} {front back : List Nat} (h : tbl.Chained n)
    (hshare : ∀ i < n, tbl'.share i = tbl.share i)
    (hlinked : Linked tbl.next (tbl.index (tbl'.nonceIndex n)) (front ++ prev :: back))
    (hfront : ∀ i ∈ front ++ [prev], tbl'.nonce i ≤ tbl'.nonce n)
    (hback : ∀ i ∈ back, tbl'.nonce n ≤ tbl'.nonce i) (hindex : tbl'.index = tbl.index)
    (hnext : tbl'.next = Function.update (Function.update tbl.next n (tbl.next prev)) prev
      (some n)) :
    tbl'.Chained (n + 1) := by
  have hinsert := (h.congr hshare).insertAfter (Nat.lt_irrefl n) hlinked hfront hback
  rw [Chained, hindex, hnext]
  exact hinsert.congr (succ_held n) (fun _ _ => rfl) (fun _ _ => rfl) fun _ _ => rfl

/-- A search along a chain ends, and tells about the slots of that chain. -/
theorem Chained.exists_seek {head : Nat} {k : UInt16} (h : tbl.Chained n)
    (hn : n ≤ tbl.maxItems) (hhead : tbl.index k = some head) (above same : Nat → Bool) :
    ∃ slots place, Linked tbl.next (tbl.index k) slots ∧
      slots.Pairwise (fun i j => tbl.nonce i ≤ tbl.nonce j) ∧
      (∀ i, i ∈ slots ↔ i < n ∧ tbl.nonceIndex i = k) ∧
      seek tbl.next above same tbl.maxItems none head = some place ∧
      place.Fits above same slots := by
  obtain ⟨slots, hlinked, hsorted, hmem⟩ := h k
  have hsubset : slots ⊆ List.range n := fun i hi => List.mem_range.mpr ((hmem i).mp hi).1
  have hlen := (hlinked.nodup.subperm hsubset).length_le
  rw [List.length_range] at hlen
  obtain ⟨place, hplace, hfits⟩ := SlotChain.exists_seek above same (hhead ▸ hlinked)
    (Nat.le_trans hlen hn)
  exact ⟨slots, place, hlinked, hsorted, hmem, hplace, hfits⟩

/-- Slot `n` is linked in where a search has ended. -/
def Entered (tbl tbl' : DupeTable) (n : Nat) : Place Nat → Prop
  | .found => False
  | .before none q => tbl'.index = Function.update tbl.index (tbl'.nonceIndex n) (some n) ∧
      tbl'.next = Function.update tbl.next n (some q)
  | .before (some p) q => tbl'.index = tbl.index ∧
      tbl'.next = Function.update (Function.update tbl.next n (some q)) p (some n)
  | .last p => tbl'.index = tbl.index ∧
      tbl'.next = Function.update (Function.update tbl.next n none) p (some n)

/-- That keeps the chains. -/
theorem Chained.enter {same : Nat → Bool} {slots : List Nat} {place : Place Nat}
    (h : tbl.Chained n) (hshare : ∀ i < n, tbl'.share i = tbl.share i)
    (hlinked : Linked tbl.next (tbl.index (tbl'.nonceIndex n)) slots)
    (hsorted : slots.Pairwise fun i j => tbl.nonce i ≤ tbl.nonce j)
    (hheld : ∀ i ∈ slots, i < n)
    (hfits : place.Fits (fun i => tbl'.nonce n < tbl.nonce i) same slots)
    (hentered : Entered tbl tbl' n place) : tbl'.Chained (n + 1) := by
  have hnonce : ∀ i ∈ slots, tbl'.nonce i = tbl.nonce i := by
    intro i hi
    rw [nonce, nonce, hshare i (hheld i hi)]
  cases place with
  | found => exact hentered.elim
  | before prev q =>
    cases prev with
    | none =>
      obtain ⟨back, rfl, habove⟩ := hfits
      obtain ⟨hindex, hnext⟩ := hentered
      refine h.push hshare hlinked ?_ hindex ?_
      · intro i hi
        rw [hnonce i hi]
        have hlt : tbl'.nonce n < tbl.nonce q := of_decide_eq_true habove
        rcases List.mem_cons.mp hi with rfl | hback
        · exact UInt64.le_of_lt hlt
        · exact UInt64.le_trans (UInt64.le_of_lt hlt) ((List.pairwise_cons.mp hsorted).1 i hback)
      · rw [hnext, hlinked.1]
    | some p =>
      obtain ⟨front, back, rfl, hbelow, habove⟩ := hfits
      obtain ⟨hindex, hnext⟩ := hentered
      have hlt : tbl'.nonce n < tbl.nonce q := of_decide_eq_true habove
      refine h.insertAfter hshare hlinked ?_ ?_ hindex ?_
      · intro i hi
        have hmem : i ∈ front ++ p :: q :: back := by
          simp only [List.mem_append, List.mem_cons, List.not_mem_nil, or_false] at hi ⊢
          tauto
        rw [hnonce i hmem]
        have hnot : ¬ tbl'.nonce n < tbl.nonce i := of_decide_eq_false (hbelow i hi).1
        exact UInt64.not_lt.mp hnot
      · intro i hi
        have hmem : i ∈ front ++ p :: q :: back :=
          List.mem_append_right _ (List.mem_cons_of_mem _ hi)
        rw [hnonce i hmem]
        have hback := (List.pairwise_cons.mp (List.pairwise_cons.mp
          (List.pairwise_append.mp hsorted).2.1).2).1
        rcases List.mem_cons.mp hi with rfl | hi
        · exact UInt64.le_of_lt hlt
        · exact UInt64.le_trans (UInt64.le_of_lt hlt) (hback i hi)
      · rw [hnext, hlinked.next_eq]
        rfl
  | last p =>
    obtain ⟨front, rfl, hbelow⟩ := hfits
    obtain ⟨hindex, hnext⟩ := hentered
    refine h.insertAfter hshare hlinked ?_ (fun i hi => absurd hi List.not_mem_nil) hindex ?_
    · intro i hi
      rw [hnonce i hi]
      have hnot : ¬ tbl'.nonce n < tbl.nonce i := of_decide_eq_false (hbelow i hi).1
      exact UInt64.not_lt.mp hnot
    · rw [hnext, hlinked.next_eq]
      rfl

theorem entered_linkAt {same : Nat → Bool} {slots : List Nat} {place : Place Nat}
    (hfits : place.Fits (fun i => tbl.nonce n < tbl.nonce i) same slots)
    (hsame : ∀ i, same i = false) (hheld : ∀ i ∈ slots, i < n) :
    Entered tbl (tbl.linkAt n place) n place := by
  match place with
  | .found =>
    obtain ⟨i, -, hfound⟩ := hfits
    exact Bool.false_ne_true ((hsame i).symm.trans hfound)
  | .before none q => exact ⟨by simp [linkAt], by simp [linkAt]⟩
  | .before (some p) q =>
    obtain ⟨front, back, rfl, -, -⟩ := hfits
    have hp : p ≠ n := Nat.ne_of_lt (hheld p (List.mem_append_right _ List.mem_cons_self))
    refine ⟨by simp [linkAt], ?_⟩
    rw [linkAt, next_setNext, next_setNext, Function.update_comm hp]
  | .last p =>
    obtain ⟨front, rfl, -⟩ := hfits
    have hp : p ≠ n := Nat.ne_of_lt (hheld p (List.mem_append_right _ List.mem_cons_self))
    refine ⟨by simp [linkAt], ?_⟩
    rw [linkAt, next_setNext, next_setNext, Function.update_comm hp]

theorem share_linkAt (place : Place Nat) : (tbl.linkAt n place).share = tbl.share := by
  match place with
  | .found => rfl
  | .before none q => simp [linkAt]
  | .before (some p) q => simp [linkAt]
  | .last p => simp [linkAt]

theorem maxItems_linkAt (place : Place Nat) : (tbl.linkAt n place).maxItems = tbl.maxItems := by
  match place with
  | .found => rfl
  | .before none q => rfl
  | .before (some p) q => rfl
  | .last p => rfl

/-- The loop of the reorganisation links in one slot after the other. -/
theorem exists_link (h : tbl.Chained n) (hn : n < tbl.maxItems) :
    ∃ tbl', tbl.link n = some tbl' ∧ tbl'.Chained (n + 1) ∧ tbl'.share = tbl.share ∧
      tbl'.maxItems = tbl.maxItems := by
  cases hhead : tbl.index (tbl.nonceIndex n) with
  | none =>
    have hlink : tbl.link n =
        some ((tbl.setIndex (tbl.nonceIndex n) (some n)).setNext n none) := by
      simp only [link, hhead]
    have hempty : Linked tbl.next (tbl.index
        (((tbl.setIndex (tbl.nonceIndex n) (some n)).setNext n none).nonceIndex n)) [] := by
      rw [nonceIndex_setNext]
      exact hhead
    refine ⟨_, hlink, ?_, by simp, rfl⟩
    refine h.push (fun i _ => by simp) hempty (fun i hi => absurd hi List.not_mem_nil) ?_ ?_
    · simp
    · simp [hhead]
  | some head =>
    obtain ⟨slots, place, hlinked, hsorted, hmem, hplace, hfits⟩ :=
      h.exists_seek (Nat.le_of_lt hn)
      hhead (fun q => tbl.nonce n < tbl.nonce q) (fun _ => false)
    have hheld : ∀ i ∈ slots, i < n := fun i hi => ((hmem i).mp hi).1
    have hlink : tbl.link n = some (tbl.linkAt n place) := by
      simp only [link, hhead, hplace, Option.map_some]
    have hentered := entered_linkAt hfits (fun _ => rfl) hheld
    refine ⟨_, hlink, ?_, share_linkAt place, maxItems_linkAt place⟩
    have hkind : (tbl.linkAt n place).nonceIndex n = tbl.nonceIndex n := by
      rw [nonceIndex, share_linkAt, nonceIndex]
    have hnonce : (tbl.linkAt n place).nonce n = tbl.nonce n := by
      rw [nonce, share_linkAt, nonce]
    rw [← hnonce] at hfits
    rw [← hkind] at hlinked
    exact h.enter (fun i _ => by rw [share_linkAt]) hlinked hsorted hheld hfits hentered

end Chained

/-- What the reorganisation makes of items that have a time: chains of all of
    them. -/
theorem exists_reorganizeFrom {tbl : DupeTable} {n i count : Nat} (h : tbl.Chained i)
    (hi : i ≤ n) (hcount : i + count = tbl.maxItems) (hn : n ≤ tbl.maxItems)
    (htime : ∀ j < n, (tbl.share j).ntime ≠ 0)
    (hfree : n < tbl.maxItems → (tbl.share n).ntime = 0) :
    ∃ tbl', reorganizeFrom count i tbl = some tbl' ∧ tbl'.Chained n ∧
      tbl'.share = tbl.share ∧
      tbl'.maxItems = tbl.maxItems ∧ tbl'.currentItems = n := by
  induction count generalizing i tbl with
  | zero =>
    obtain rfl : i = n := by omega
    exact ⟨_, rfl, h, rfl, rfl, rfl⟩
  | succ count ih =>
    rw [reorganizeFrom]
    rcases Nat.eq_or_lt_of_le hi with rfl | hlt
    · exact ⟨_, if_pos (hfree (by omega)), h, rfl, rfl, rfl⟩
    · rw [if_neg (htime i hlt)]
      obtain ⟨linked, hlink, hchained, hshare, hmax⟩ := exists_link h (by omega)
      rw [hlink, Option.bind_some]
      rw [← hmax] at hcount hn hfree
      rw [← hshare] at htime hfree
      obtain ⟨tbl', hrest, hfinal, hshare', hmax', hcurrent⟩ :=
        ih hchained hlt (by omega) hn htime hfree
      exact ⟨tbl', hrest, hfinal, hshare'.trans hshare, hmax'.trans hmax, hcurrent⟩

theorem chained_zero {tbl : DupeTable} (hindex : tbl.index = fun _ => none) : tbl.Chained 0 := by
  rw [Chained, hindex]
  exact (filed_empty _ _ _).congr (fun i => iff_false_intro (Nat.not_lt_zero i)) (fun _ _ => rfl)
    (fun _ _ => rfl) fun _ _ => rfl

theorem exists_reorganize {tbl : DupeTable} {n : Nat} (hindex : tbl.index = fun _ => none)
    (hn : n ≤ tbl.maxItems) (htime : ∀ i < n, (tbl.share i).ntime ≠ 0)
    (hfree : n < tbl.maxItems → (tbl.share n).ntime = 0) :
    ∃ tbl', tbl.reorganize = some tbl' ∧ tbl'.Chained n ∧ tbl'.share = tbl.share ∧
      tbl'.maxItems = tbl.maxItems ∧ tbl'.currentItems = n :=
  exists_reorganizeFrom (chained_zero hindex) (Nat.zero_le n) (Nat.zero_add _) hn htime hfree

theorem maxItems_sortItems (tbl : DupeTable) (sorter : Qsort.Sorter DupeItem) (env : DupeEnv) :
    (tbl.sortItems sorter env).maxItems = tbl.maxItems := rfl

/-- Exactly these shares are in the table, in chains by their nonces. -/
structure Exact (tbl : DupeTable) (live : Finset DupeShare) : Prop where
  stores : Stores tbl.share tbl.currentItems live
  chained : tbl.Chained tbl.currentItems
  room : tbl.currentItems < tbl.maxItems

/-- The clean-up of a full table keeps the shares whose job is not stale, or all of
    them in more slots, and rebuilds the chains. -/
theorem exists_cleanup {tbl : DupeTable} {live : Finset DupeShare} (sorter : Qsort.Sorter DupeItem)
    (env : DupeEnv) (h : Stores tbl.share tbl.maxItems live) (hmax : 4 ≤ tbl.maxItems)
    (htime : ∀ share ∈ keptShares env live tbl.maxItems, share.ntime ≠ 0) :
    ∃ tbl', tbl.cleanup sorter env = some tbl' ∧
      tbl'.Exact (keptShares env live tbl.maxItems) ∧
      tbl'.maxItems = keptCapacity env live tbl.maxItems := by
  have hsorted := stores_sortItems h sorter env
  obtain ⟨place, hplace, hfresh, hstale⟩ := exists_firstStale tbl sorter env
  have hfilter := hsorted.filter hplace hfresh hstale
  have hfound : findFirstLessThan env (tbl.sortItems sorter env).share tbl.maxItems =
      if place = tbl.maxItems then -1 else (place : Int) :=
    findFirstLessThan_eq hplace hfresh hstale
  by_cases hfew : place < tbl.maxItems * 95 / 100
  · -- enough are stale: they are cleared
    have hkept : keptShares env live tbl.maxItems =
        live.filter fun share => env.isStale share = false := by
      rw [keptShares, hfilter.card, if_pos hfew]
    have hcapacity : keptCapacity env live tbl.maxItems = tbl.maxItems := by
      rw [keptCapacity, hfilter.card, if_pos hfew]
    rw [hkept] at htime ⊢
    rw [hcapacity]
    have hlt : place < tbl.maxItems := by omega
    have hcleanup : tbl.cleanup sorter env =
        ((tbl.sortItems sorter env).clearFrom place).reorganize := by
      simp only [cleanup, maxItems_sortItems, hfound, if_neg (Nat.ne_of_lt hlt)]
      rw [if_neg (by omega), if_pos (by omega), Int.toNat_natCast]
    have hstores := hfilter.congr fun i hi =>
      (tbl.sortItems sorter env).share_clearFrom_of_lt hi
    have hzero := (tbl.sortItems sorter env).share_clearFrom_self hlt
    have htimes : ∀ i < place,
        (((tbl.sortItems sorter env).clearFrom place).share i).ntime ≠ 0 :=
      fun i hi => htime _ ((hstores.mem_iff _).mpr ⟨i, hi, rfl⟩)
    have hfree : place < tbl.maxItems →
        (((tbl.sortItems sorter env).clearFrom place).share place).ntime = 0 := by
      intro _
      rw [hzero]
      rfl
    have hindex : ((tbl.sortItems sorter env).clearFrom place).index = fun _ => none := rfl
    obtain ⟨tbl', hrun, hchained, hshares, hmaxItems, hcurrent⟩ :=
      exists_reorganize hindex hplace htimes hfree
    refine ⟨tbl', hcleanup.trans hrun, ⟨?_, ?_, ?_⟩, hmaxItems⟩
    · rw [hcurrent, hshares]
      exact hstores
    · rw [hcurrent]
      exact hchained
    · rw [hcurrent, hmaxItems]
      exact hlt
  · -- the table grows
    have hkept : keptShares env live tbl.maxItems = live := by
      rw [keptShares, hfilter.card, if_neg hfew]
    have hcapacity : keptCapacity env live tbl.maxItems = grown tbl.maxItems := by
      rw [keptCapacity, hfilter.card, if_neg hfew]
    rw [hkept] at htime ⊢
    rw [hcapacity]
    have hgrown : tbl.maxItems < grown tbl.maxItems := by
      rw [grown]
      omega
    have hcleanup : tbl.cleanup sorter env = (tbl.sortItems sorter env).expand.reorganize := by
      have hvalue : (if place = tbl.maxItems then -1 else (place : Int)) = -1 ∨
          (if place = tbl.maxItems then -1 else (place : Int)) = place := by
        split <;> simp
      simp only [cleanup, maxItems_sortItems, hfound]
      generalize (if place = tbl.maxItems then -1 else (place : Int)) = i at hvalue
      by_cases hends : i = -1 ∨ i = tbl.maxItems - 1
      · rw [if_pos hends]
      · rw [if_neg hends, if_neg (by omega)]
    have hstores := hsorted.congr fun i hi => (tbl.sortItems sorter env).share_expand_of_lt hi
    have hzero := (tbl.sortItems sorter env).share_expand_self hgrown
    have htimes : ∀ i < tbl.maxItems, ((tbl.sortItems sorter env).expand.share i).ntime ≠ 0 :=
      fun i hi => htime _ ((hstores.mem_iff _).mpr ⟨i, hi, rfl⟩)
    have hfree : tbl.maxItems < grown tbl.maxItems →
        ((tbl.sortItems sorter env).expand.share tbl.maxItems).ntime = 0 := by
      intro _
      rw [← tbl.maxItems_sortItems sorter env, hzero]
      rfl
    have hindex : (tbl.sortItems sorter env).expand.index = fun _ => none := rfl
    obtain ⟨tbl', hrun, hchained, hshares, hmaxItems, hcurrent⟩ :=
      exists_reorganize hindex (Nat.le_of_lt hgrown) htimes hfree
    refine ⟨tbl', hcleanup.trans hrun, ⟨?_, ?_, ?_⟩, hmaxItems⟩
    · rw [hcurrent, hshares]
      exact hstores
    · rw [hcurrent]
      exact hchained
    · rw [hcurrent, hmaxItems]
      exact hgrown

end DupeTable

end ChirpGateway
