import ChirpGateway.Lib.Transition
import ChirpGateway.Stratum.DupesCleanup
import Mathlib.Tactic.MkIffOfInductiveProp

/-!
# Runs of the duplicate check

A call that fills the last slot runs the clean-up before its caller is done: where
the caller then writes through the pointer to the slot it was given, the table is
not the one it wrote to. In runs without such a call, and without an item whose
time is zero at a clean-up, the table is exact.
-/

namespace ChirpGateway

open SlotChain Transition

/-- One call of `datum_stratum_check_for_dupe`, with what a clean-up would read. -/
structure DupeCall where
  nonce : UInt64
  jobIndex : Fin 256
  ntime : UInt64
  versionBits : UInt32
  extranonceBin : List UInt8
  env : DupeEnv
  extranonceBin_length : extranonceBin.length = 12

def DupeCall.share (call : DupeCall) : DupeShare :=
  dupeShare call.nonce call.jobIndex call.ntime call.versionBits call.extranonceBin

/-! ## What is to be remembered -/

/-- The shares that were passed and not pruned since, and how many slots there
    are. -/
structure DupeMemory where
  capacity : Nat
  live : Finset DupeShare

namespace DupeMemory

/-- A new share is remembered; where it is the last there is room for, what is stale
    is pruned, or the room grows. -/
def remember (memory : DupeMemory) (env : DupeEnv) (share : DupeShare) : DupeMemory :=
  if share ∈ memory.live then memory
  else
    let live := insert share memory.live
    if live.card < memory.capacity then { memory with live }
    else
      { capacity := keptCapacity env live memory.capacity
        live := keptShares env live memory.capacity }

/-- The call fills the last slot. -/
def IsFilledBy (memory : DupeMemory) (call : DupeCall) : Prop :=
  call.share ∉ memory.live ∧ memory.capacity ≤ (insert call.share memory.live).card

/-- A call that fills the last slot neither starts its chain nor goes to the front of
    it, and every share that its clean-up keeps has a time. -/
@[mk_iff]
structure Harmless (memory : DupeMemory) (call : DupeCall) : Prop where
  behind : memory.IsFilledBy call → ∃ other ∈ memory.live,
    other.nonce.toUInt16 = call.nonce.toUInt16 ∧ other.nonce ≤ call.nonce
  timed : memory.IsFilledBy call → ∀ share ∈ (memory.remember call.env call.share).live,
    share.ntime ≠ 0
  /-- the new number of slots fits an `int` -/
  counted : memory.IsFilledBy call → memory.capacity * 125 < 2 ^ 31

instance (memory : DupeMemory) (call : DupeCall) : Decidable (memory.IsFilledBy call) :=
  inferInstanceAs (Decidable (_ ∧ _))

instance (memory : DupeMemory) (call : DupeCall) : Decidable (memory.Harmless call) :=
  decidable_of_iff _ (harmless_iff memory call).symm

end DupeMemory

/-! ## One call -/

namespace DupeTable

variable {tbl : DupeTable} {live : Finset DupeShare} {share : DupeShare}

/-- A stored share is a new one. -/
theorem stores_store (h : tbl.Exact live) (hnew : share ∉ live) (insertAfter : Option Nat) :
    Stores (tbl.store share insertAfter).share (tbl.currentItems + 1) (insert share live) := by
  have hlast : (tbl.store share insertAfter).share tbl.currentItems = share := by
    rw [share_store, Function.update_self]
  have hstores : Stores (tbl.store share insertAfter).share tbl.currentItems live := by
    refine h.stores.congr fun i hi => ?_
    rw [share_store, Function.update_of_ne (Nat.ne_of_lt hi)]
  have hsnoc := hstores.snoc (hlast.symm ▸ hnew)
  rwa [hlast] at hsnoc

/-- Where there is room behind the share, it is stored as it was linked in. -/
theorem addNewDupe_of_room (sorter : Qsort.Sorter DupeItem) (env : DupeEnv)
    (insertAfter : Option Nat) (hroom : tbl.currentItems + 1 < tbl.maxItems) :
    tbl.addNewDupe sorter env share insertAfter =
      some (tbl.currentItems, tbl.store share insertAfter) := by
  rw [addNewDupe, if_neg]
  rw [currentItems_store, maxItems_store]
  omega

/-- The first of its chain: there are no others, or only such with a greater
    nonce. -/
theorem exact_store_front (h : tbl.Exact live) (hnew : share ∉ live)
    (hroom : tbl.currentItems + 1 < tbl.maxItems) {slots : List Nat}
    (hlinked : Linked tbl.next (tbl.index share.nonce.toUInt16) slots)
    (hheld : ∀ i ∈ slots, i < tbl.currentItems)
    (hrank : ∀ i ∈ slots, share.nonce ≤ tbl.nonce i)
    {tbl' : DupeTable} (hshare : tbl'.share = (tbl.store share none).share)
    (hindex : tbl'.index =
      Function.update tbl.index share.nonce.toUInt16 (some tbl.currentItems))
    (hnext : tbl'.next =
      Function.update tbl.next tbl.currentItems (tbl.index share.nonce.toUInt16))
    (hcurrent : tbl'.currentItems = tbl.currentItems + 1) (hmax : tbl'.maxItems = tbl.maxItems) :
    tbl'.Exact (insert share live) := by
  have hlast : tbl'.share tbl.currentItems = share := by
    rw [hshare, share_store, Function.update_self]
  have hothers : ∀ i < tbl.currentItems, tbl'.share i = tbl.share i := by
    intro i hi
    rw [hshare, share_store, Function.update_of_ne (Nat.ne_of_lt hi)]
  have hkind : tbl'.nonceIndex tbl.currentItems = share.nonce.toUInt16 := by
    rw [nonceIndex, hlast]
  have hchained : tbl'.Chained (tbl.currentItems + 1) := by
    rw [← hkind] at hlinked hindex hnext
    refine h.chained.push hothers hlinked ?_ hindex hnext
    intro i hi
    rw [nonce, hlast, nonce, hothers i (hheld i hi)]
    exact hrank i hi
  refine ⟨?_, hcurrent ▸ hchained, by omega⟩
  rw [hcurrent, hshare]
  exact stores_store h hnew none

section Search

variable {slots : List Nat} {place : Place Nat}

/-- The search for a share in a chain. -/
abbrev FitsShare (tbl : DupeTable) (share : DupeShare) (slots : List Nat) (place : Place Nat) :
    Prop :=
  place.Fits (fun i => share.nonce < tbl.nonce i) (fun i => tbl.share i = share) slots

/-- Behind a slot with a greater nonce all are greater. -/
theorem lt_nonce_of_sorted {front back : List Nat} {q i : Nat}
    (hsorted : (front ++ q :: back).Pairwise fun i j => tbl.nonce i ≤ tbl.nonce j)
    (habove : share.nonce < tbl.nonce q) (hi : i ∈ q :: back) : share.nonce < tbl.nonce i := by
  rcases List.mem_cons.mp hi with rfl | hback
  · exact habove
  · have hle := (List.pairwise_cons.mp (List.pairwise_append.mp hsorted).2.1).1 i hback
    exact UInt64.lt_of_lt_of_le habove hle

/-- A search that does not find the share has seen that it is not there. -/
theorem notMem_of_fits (h : tbl.Exact live)
    (hsorted : slots.Pairwise fun i j => tbl.nonce i ≤ tbl.nonce j)
    (hmem : ∀ i, i ∈ slots ↔ i < tbl.currentItems ∧ tbl.nonceIndex i = share.nonce.toUInt16)
    (hfits : FitsShare tbl share slots place) (hplace : place ≠ .found) : share ∉ live := by
  intro hlive
  obtain ⟨i, hi, hshare⟩ := (h.stores.mem_iff share).mp hlive
  have hslot : i ∈ slots := (hmem i).mpr ⟨hi, by rw [nonceIndex, hshare]⟩
  have hsame : decide (tbl.share i = share) = true := decide_eq_true hshare
  have hnonce : ¬ share.nonce < tbl.nonce i := by
    rw [nonce, hshare]
    exact UInt64.lt_irrefl _
  cases place with
  | found => exact hplace rfl
  | before prev q =>
    cases prev with
    | none =>
      obtain ⟨back, rfl, habove⟩ := hfits
      rw [← List.nil_append (q :: back)] at hsorted
      exact hnonce (lt_nonce_of_sorted hsorted (of_decide_eq_true habove) hslot)
    | some p =>
      obtain ⟨front, back, rfl, hbelow, habove⟩ := hfits
      rw [← List.singleton_append, ← List.append_assoc] at hslot hsorted
      rcases List.mem_append.mp hslot with hfront | hback
      · exact Bool.false_ne_true ((hbelow i hfront).2.symm.trans hsame)
      · exact hnonce (lt_nonce_of_sorted hsorted (of_decide_eq_true habove) hback)
  | last p =>
    obtain ⟨front, rfl, hbelow⟩ := hfits
    exact Bool.false_ne_true ((hbelow i hslot).2.symm.trans hsame)

/-- Behind another slot: its chain is as long as before, and the share in its
    place. -/
theorem exact_store_behind (h : tbl.Exact live) (hnew : share ∉ live)
    (hroom : tbl.currentItems + 1 < tbl.maxItems)
    (hlinked : Linked tbl.next (tbl.index share.nonce.toUInt16) slots)
    (hsorted : slots.Pairwise fun i j => tbl.nonce i ≤ tbl.nonce j)
    (hmem : ∀ i, i ∈ slots ↔ i < tbl.currentItems ∧ tbl.nonceIndex i = share.nonce.toUInt16)
    (hfits : FitsShare tbl share slots place) {p : Nat}
    (hp : (∃ q, place = .before (some p) q) ∨ place = .last p) :
    (tbl.store share (some p)).Exact (insert share live) := by
  have hlast : (tbl.store share (some p)).share tbl.currentItems = share := by
    rw [share_store, Function.update_self]
  have hothers : ∀ i < tbl.currentItems, (tbl.store share (some p)).share i = tbl.share i := by
    intro i hi
    rw [share_store, Function.update_of_ne (Nat.ne_of_lt hi)]
  have hkind : (tbl.store share (some p)).nonceIndex tbl.currentItems = share.nonce.toUInt16 := by
    rw [nonceIndex, hlast]
  have hnonce : (tbl.store share (some p)).nonce tbl.currentItems = share.nonce := by
    rw [nonce, hlast]
  have hentered : Entered tbl (tbl.store share (some p)) tbl.currentItems place := by
    rcases hp with ⟨q, rfl⟩ | rfl
    · obtain ⟨front, back, rfl, -, -⟩ := hfits
      refine ⟨index_store _ _ _, ?_⟩
      rw [next_store_some, hlinked.next_eq]
      rfl
    · obtain ⟨front, rfl, -⟩ := hfits
      refine ⟨index_store _ _ _, ?_⟩
      rw [next_store_some, hlinked.next_eq]
      rfl
  have hchained : (tbl.store share (some p)).Chained (tbl.currentItems + 1) := by
    rw [← hkind] at hlinked
    rw [FitsShare, ← hnonce] at hfits
    exact h.chained.enter hothers hlinked hsorted (fun i hi => ((hmem i).mp hi).1) hfits hentered
  refine ⟨?_, ?_, ?_⟩
  · rw [currentItems_store]
    exact stores_store h hnew _
  · rw [currentItems_store]
    exact hchained
  · rw [currentItems_store, maxItems_store]
    exact hroom

end Search

/-- The share that fills the last slot, behind another one. -/
theorem exists_addNewDupe_of_full (h : tbl.Exact live) (hnew : share ∉ live)
    (hfull : tbl.currentItems + 1 = tbl.maxItems) (hmax : 4 ≤ tbl.maxItems)
    (sorter : Qsort.Sorter DupeItem) (env : DupeEnv) (insertAfter : Option Nat)
    (htime : ∀ kept ∈ keptShares env (insert share live) tbl.maxItems, kept.ntime ≠ 0) :
    ∃ tbl', tbl.addNewDupe sorter env share insertAfter = some (tbl.currentItems, tbl') ∧
      tbl'.Exact (keptShares env (insert share live) tbl.maxItems) ∧
      tbl'.maxItems = keptCapacity env (insert share live) tbl.maxItems := by
  have hstores := stores_store h hnew insertAfter
  rw [hfull, ← maxItems_store tbl share insertAfter] at hstores
  rw [← maxItems_store tbl share insertAfter] at hmax htime ⊢
  obtain ⟨tbl', hcleanup, hexact, hcapacity⟩ := exists_cleanup sorter env hstores hmax htime
  refine ⟨tbl', ?_, hexact, hcapacity⟩
  rw [addNewDupe, if_pos, hcleanup, Option.map_some]
  rw [currentItems_store, maxItems_store]
  exact Nat.le_of_eq hfull.symm

section Call

variable {memory : DupeMemory} {call : DupeCall}

theorem remember_of_room (hnew : call.share ∉ memory.live)
    (hroom : (insert call.share memory.live).card < memory.capacity) :
    memory.remember call.env call.share =
      { memory with live := insert call.share memory.live } := by
  rw [DupeMemory.remember, if_neg hnew]
  exact if_pos hroom

theorem remember_of_full (hnew : call.share ∉ memory.live)
    (hfull : memory.capacity ≤ (insert call.share memory.live).card) :
    memory.remember call.env call.share =
      { capacity := keptCapacity call.env (insert call.share memory.live) memory.capacity
        live := keptShares call.env (insert call.share memory.live) memory.capacity } := by
  rw [DupeMemory.remember, if_neg hnew]
  exact if_neg (Nat.not_lt.mpr hfull)

/-- A share behind another one is added, with a clean-up or without. -/
theorem exists_addNewDupe_behind {slots : List Nat} {place : Place Nat} {p : Nat}
    (h : tbl.Exact memory.live) (hcapacity : tbl.maxItems = memory.capacity)
    (hmin : 4 ≤ memory.capacity) (sorter : Qsort.Sorter DupeItem)
    (hharmless : memory.Harmless call) (hnew : call.share ∉ memory.live)
    (hlinked : Linked tbl.next (tbl.index call.share.nonce.toUInt16) slots)
    (hsorted : slots.Pairwise fun i j => tbl.nonce i ≤ tbl.nonce j)
    (hmem : ∀ i, i ∈ slots ↔
      i < tbl.currentItems ∧ tbl.nonceIndex i = call.share.nonce.toUInt16)
    (hfits : FitsShare tbl call.share slots place)
    (hp : (∃ q, place = .before (some p) q) ∨ place = .last p) :
    ∃ tbl', tbl.addNewDupe sorter call.env call.share (some p) = some (tbl.currentItems, tbl') ∧
      tbl'.Exact (memory.remember call.env call.share).live ∧
      tbl'.maxItems = (memory.remember call.env call.share).capacity := by
  have hcard : (insert call.share memory.live).card = tbl.currentItems + 1 := by
    rw [Finset.card_insert_of_notMem hnew, h.stores.card]
  have hcurrent := h.room
  by_cases hroom : tbl.currentItems + 1 < tbl.maxItems
  · refine ⟨_, addNewDupe_of_room sorter call.env (some p) hroom, ?_, ?_⟩
    · rw [remember_of_room hnew (by omega)]
      exact exact_store_behind h hnew hroom hlinked hsorted hmem hfits hp
    · rw [remember_of_room hnew (by omega), maxItems_store, hcapacity]
  · have hfull : memory.capacity ≤ (insert call.share memory.live).card := by omega
    have htimed := hharmless.timed ⟨hnew, hfull⟩
    rw [remember_of_full hnew hfull] at htimed ⊢
    rw [← hcapacity] at htimed hmin ⊢
    exact exists_addNewDupe_of_full h hnew (by omega) hmin sorter call.env (some p) htimed

/-- A share in front of its chain is added where there is room. -/
theorem room_of_front {slots : List Nat} (h : tbl.Exact memory.live)
    (hcapacity : tbl.maxItems = memory.capacity) (hharmless : memory.Harmless call)
    (hnew : call.share ∉ memory.live)
    (hmem : ∀ i, i ∈ slots ↔
      i < tbl.currentItems ∧ tbl.nonceIndex i = call.share.nonce.toUInt16)
    (habove : ∀ i ∈ slots, call.share.nonce < tbl.nonce i) :
    tbl.currentItems + 1 < tbl.maxItems := by
  have hcard : (insert call.share memory.live).card = tbl.currentItems + 1 := by
    rw [Finset.card_insert_of_notMem hnew, h.stores.card]
  by_contra hroom
  obtain ⟨other, hother, hkind, hle⟩ := hharmless.behind ⟨hnew, by omega⟩
  obtain ⟨i, hi, rfl⟩ := (h.stores.mem_iff other).mp hother
  exact UInt64.not_lt.mpr hle (habove i ((hmem i).mpr ⟨hi, hkind⟩))

/-- A harmless call answers whether the share is remembered, and leaves an exact
    table. -/
theorem exists_checkForDupe (h : tbl.Exact memory.live) (hcapacity : tbl.maxItems = memory.capacity)
    (hmin : 4 ≤ memory.capacity) (sorter : Qsort.Sorter DupeItem)
    (hharmless : memory.Harmless call) :
    ∃ tbl', tbl.checkForDupe sorter call.env call.share =
        some (decide (call.share ∈ memory.live), tbl') ∧
      tbl'.Exact (memory.remember call.env call.share).live ∧
      tbl'.maxItems = (memory.remember call.env call.share).capacity := by
  cases hhead : tbl.index call.share.nonce.toUInt16 with
  | none =>
    obtain ⟨slots, hlinked, -, hmem⟩ := h.chained call.share.nonce.toUInt16
    obtain rfl : slots = [] := hlinked.unique hhead
    have hnew : call.share ∉ memory.live := by
      intro hlive
      obtain ⟨i, hi, hshare⟩ := (h.stores.mem_iff call.share).mp hlive
      exact List.not_mem_nil ((hmem i).mpr ⟨hi, by rw [nonceIndex, hshare]⟩)
    have hroom := room_of_front h hcapacity hharmless hnew hmem
      fun i hi => absurd hi List.not_mem_nil
    have hcard : (insert call.share memory.live).card = tbl.currentItems + 1 := by
      rw [Finset.card_insert_of_notMem hnew, h.stores.card]
    rw [remember_of_room hnew (by omega)]
    refine ⟨(tbl.store call.share none).setIndex call.share.nonce.toUInt16
      (some tbl.currentItems), ?_, ?_, ?_⟩
    · simp only [checkForDupe, hhead, addNewDupe_of_room sorter call.env none hroom,
        Option.map_some, hnew, decide_false]
    · refine exact_store_front h hnew hroom hlinked (fun i hi => absurd hi List.not_mem_nil)
        (fun i hi => absurd hi List.not_mem_nil) rfl ?_ ?_ ?_ ?_
      · simp
      · rw [next_setIndex, next_store_none, hhead]
      · simp
      · simp
    · simp [hcapacity]
  | some head =>
    obtain ⟨slots, place, hlinked, hsorted, hmem, hplace, hfits⟩ := h.chained.exists_seek
      (Nat.le_of_lt h.room) hhead (fun i => call.share.nonce < tbl.nonce i)
      (fun i => tbl.share i = call.share)
    cases place with
    | found =>
      obtain ⟨i, hi, hsame⟩ := hfits
      have hlive : call.share ∈ memory.live :=
        (h.stores.mem_iff _).mpr ⟨i, ((hmem i).mp hi).1, of_decide_eq_true hsame⟩
      refine ⟨tbl, ?_, ?_, ?_⟩
      · simp only [checkForDupe, hhead, hplace, Option.bind_some, hlive, decide_true]
      · rw [DupeMemory.remember, if_pos hlive]
        exact h
      · rw [DupeMemory.remember, if_pos hlive]
        exact hcapacity
    | before prev q =>
      cases prev with
      | none =>
        have hnew := notMem_of_fits h hsorted hmem hfits (by simp)
        obtain ⟨back, rfl, habove⟩ := hfits
        obtain rfl : head = q := Option.some.inj (hhead.symm.trans hlinked.1)
        have habove : ∀ i ∈ head :: back, call.share.nonce < tbl.nonce i := by
          intro i hi
          rw [← List.nil_append (head :: back)] at hsorted
          exact lt_nonce_of_sorted hsorted (of_decide_eq_true habove) hi
        have hroom := room_of_front h hcapacity hharmless hnew hmem habove
        have hcard : (insert call.share memory.live).card = tbl.currentItems + 1 := by
          rw [Finset.card_insert_of_notMem hnew, h.stores.card]
        rw [remember_of_room hnew (by omega)]
        refine ⟨((tbl.store call.share none).setIndex call.share.nonce.toUInt16
          (some tbl.currentItems)).setNext tbl.currentItems (some head), ?_, ?_, ?_⟩
        · simp only [checkForDupe, hhead, hplace, Option.bind_some,
            addNewDupe_of_room sorter call.env none hroom, Option.map_some, hnew, decide_false]
        · refine exact_store_front h hnew hroom hlinked (fun i hi => ((hmem i).mp hi).1)
            (fun i hi => UInt64.le_of_lt (habove i hi)) (by simp) (by simp) ?_ (by simp) (by simp)
          rw [next_setNext, next_setIndex, next_store_none, hhead, Function.update_idem]
        · simp [hcapacity]
      | some p =>
        have hnew := notMem_of_fits h hsorted hmem hfits (by simp)
        obtain ⟨tbl', hadd, hexact, hmax⟩ := exists_addNewDupe_behind h hcapacity hmin sorter
          hharmless hnew hlinked hsorted hmem hfits (Or.inl ⟨q, rfl⟩)
        refine ⟨tbl', ?_, hexact, hmax⟩
        simp only [checkForDupe, hhead, hplace, Option.bind_some, hadd, Option.map_some, hnew,
          decide_false]
    | last p =>
      have hnew := notMem_of_fits h hsorted hmem hfits (by simp)
      obtain ⟨tbl', hadd, hexact, hmax⟩ := exists_addNewDupe_behind h hcapacity hmin sorter
        hharmless hnew hlinked hsorted hmem hfits (Or.inr rfl)
      refine ⟨tbl', ?_, hexact, hmax⟩
      simp only [checkForDupe, hhead, hplace, Option.bind_some, hadd, Option.map_some, hnew,
        decide_false]

end Call

end DupeTable

/-! ## Runs -/

/-- The table of a thread, and what it should remember. -/
structure DupeState where
  table : DupeTable
  memory : DupeMemory

/-- Calls one after the other. -/
def dupeSystem (sorter : Qsort.Sorter DupeItem) : System DupeState DupeCall where
  step s call := (s.table.checkForDupe sorter call.env call.share).map fun result =>
    { table := result.2, memory := s.memory.remember call.env call.share }

/-- An empty table of a size the configuration admits. -/
def DupeState.IsInitial (s : DupeState) : Prop :=
  ∃ maxItems ≥ 16,
    s = { table := DupeTable.init maxItems, memory := { capacity := maxItems, live := ∅ } }

/-- Every chain ends, meets no slot twice, has exactly the remembered shares of its
    nonces, and is in the order of the nonces. -/
def DupeTable.ChainsExact (tbl : DupeTable) (live : Finset DupeShare) : Prop :=
  ∀ k : UInt16, ∃ slots, Linked tbl.next (tbl.index k) slots ∧ slots.Nodup ∧
    (slots.map tbl.share).Nodup ∧
    (∀ share, share ∈ slots.map tbl.share ↔ share ∈ live ∧ share.nonce.toUInt16 = k) ∧
    slots.Pairwise fun i j => tbl.nonce i ≤ tbl.nonce j

theorem DupeTable.Exact.chainsExact {tbl : DupeTable} {live : Finset DupeShare}
    (h : tbl.Exact live) : tbl.ChainsExact live := by
  intro k
  obtain ⟨slots, hlinked, hsorted, hmem⟩ := h.chained k
  have hinj : ∀ i ∈ slots, ∀ j ∈ slots, tbl.share i = tbl.share j → i = j := by
    intro i hi j hj heq
    exact List.inj_on_of_nodup_map h.stores.1 (List.mem_range.mpr ((hmem i).mp hi).1)
      (List.mem_range.mpr ((hmem j).mp hj).1) heq
  refine ⟨slots, hlinked, hlinked.nodup, hlinked.nodup.map_on hinj, fun share => ?_, hsorted⟩
  rw [List.mem_map, h.stores.mem_iff]
  constructor
  · rintro ⟨i, hi, rfl⟩
    obtain ⟨hheld, hkind⟩ := (hmem i).mp hi
    exact ⟨⟨i, hheld, rfl⟩, hkind⟩
  · rintro ⟨⟨i, hi, rfl⟩, hkind⟩
    exact ⟨i, (hmem i).mpr ⟨hi, hkind⟩, rfl⟩

/-- The invariant of runs of harmless calls. -/
structure DupeState.Sound (s : DupeState) : Prop where
  exact : s.table.Exact s.memory.live
  capacity : s.table.maxItems = s.memory.capacity
  capacity_ge : 16 ≤ s.memory.capacity

section Run

variable {sorter : Qsort.Sorter DupeItem} {s s' : DupeState} {call : DupeCall}

theorem sound_of_isInitial (h : s.IsInitial) : s.Sound := by
  obtain ⟨maxItems, hmax, rfl⟩ := h
  refine ⟨⟨?_, DupeTable.chained_zero rfl, ?_⟩, rfl, hmax⟩
  · exact ⟨List.nodup_nil, rfl⟩
  · show 0 < maxItems
    omega

theorem le_keptCapacity (env : DupeEnv) (live : Finset DupeShare) (capacity : Nat) :
    capacity ≤ keptCapacity env live capacity := by
  rw [keptCapacity, grown]
  split <;> omega

theorem capacity_remember_ge (memory : DupeMemory) (env : DupeEnv) (share : DupeShare) :
    memory.capacity ≤ (memory.remember env share).capacity := by
  unfold DupeMemory.remember
  split
  · exact Nat.le_refl _
  · dsimp only
    split
    · exact Nat.le_refl _
    · exact le_keptCapacity _ _ _

/-- A harmless call returns. -/
theorem DupeState.Sound.exists_check (h : s.Sound) (sorter : Qsort.Sorter DupeItem)
    (hharmless : s.memory.Harmless call) :
    ∃ tbl', s.table.checkForDupe sorter call.env call.share =
        some (decide (call.share ∈ s.memory.live), tbl') ∧
      tbl'.Exact (s.memory.remember call.env call.share).live ∧
      tbl'.maxItems = (s.memory.remember call.env call.share).capacity := by
  have hmin : 4 ≤ s.memory.capacity := Nat.le_trans (by decide) h.capacity_ge
  exact DupeTable.exists_checkForDupe h.exact h.capacity hmin sorter hharmless

theorem DupeState.Sound.step (h : s.Sound) (hharmless : s.memory.Harmless call)
    (hstep : (dupeSystem sorter).step s call = some s') : s'.Sound := by
  obtain ⟨tbl', hcheck, hexact, hmax⟩ := h.exists_check sorter hharmless
  have hstate : { table := tbl', memory := s.memory.remember call.env call.share } = s' := by
    simpa [dupeSystem, hcheck] using hstep
  subst hstate
  exact ⟨hexact, hmax, Nat.le_trans h.capacity_ge (capacity_remember_ge _ _ _)⟩

/-- In every run of harmless calls the chains are exact, and each further one
    returns and answers whether its share is remembered. -/
theorem chainsExact_of_harmless
    (hrun : (dupeSystem sorter).ReachedBy (fun s call => s.memory.Harmless call)
      DupeState.IsInitial s) :
    s.table.ChainsExact s.memory.live ∧ ∀ call : DupeCall, s.memory.Harmless call →
      ∃ tbl', s.table.checkForDupe sorter call.env call.share =
        some (decide (call.share ∈ s.memory.live), tbl') := by
  have hsound : s.Sound :=
    hrun.invariant (fun _ => sound_of_isInitial) fun _ _ _ hs hharmless => hs.step hharmless
  refine ⟨hsound.exact.chainsExact, fun call hharmless => ?_⟩
  obtain ⟨tbl', hcheck, -, -⟩ := hsound.exists_check sorter hharmless
  exact ⟨tbl', hcheck⟩

end Run

/-! ## Filling a table -/

/-- Job 0 is stale for a clean-up and job 1 is not. -/
def twoJobsEnv : DupeEnv where
  tsms := fun job => if job = 0 then some 1000000 else if job = 1 then some 1200000 else none
  now := 1200000
  shareStaleSeconds := 120

def numberedCall (nonce : UInt64) (jobIndex : Fin 256) : DupeCall where
  nonce
  jobIndex
  ntime := 1
  versionBits := 0
  extranonceBin := List.replicate 12 0
  env := twoJobsEnv
  extranonceBin_length := by decide

/-- Fifteen shares for the stale job and a last one for the other. -/
def fillingCalls (last : UInt64) : List DupeCall :=
  (List.range 15).map (fun i => numberedCall (UInt64.ofNat i) 0) ++ [numberedCall last 1]

def smallestState : DupeState where
  table := DupeTable.init 16
  memory := { capacity := 16, live := ∅ }

theorem smallestState_isInitial : smallestState.IsInitial := ⟨16, Nat.le_refl _, rfl⟩

/-- The last share goes behind one of its chain: all others are pruned. -/
theorem exists_filled_behind : ∃ s,
    (dupeSystem (Qsort.insertionSorter _)).ReachedBy (fun s call => s.memory.Harmless call)
      DupeState.IsInitial s ∧
    s.memory.live = {(numberedCall 0x1000e 1).share} ∧ s.table.ChainsExact s.memory.live := by
  obtain ⟨s, hrun, htest⟩ := System.exists_reachedBy_of_replay
    (dupeSystem (Qsort.insertionSorter _)) smallestState_isInitial
    (fun s call => decide (s.memory.Harmless call)) (fillingCalls 0x1000e)
    (fun s => decide (s.memory.live = {(numberedCall 0x1000e 1).share}))
    (fun _ _ => of_decide_eq_true) (by decide +kernel)
  exact ⟨s, hrun, of_decide_eq_true htest, (chainsExact_of_harmless hrun).1⟩

/-- The last share starts a chain: it is not pruned, and passed a second time it is
    taken for new. -/
theorem exists_filled_forgotten : ∃ s,
    (dupeSystem (Qsort.insertionSorter _)).Reachable DupeState.IsInitial s ∧
    (numberedCall 15 1).share ∈ s.memory.live ∧
    ∃ tbl', s.table.checkForDupe (Qsort.insertionSorter _) twoJobsEnv (numberedCall 15 1).share =
      some (false, tbl') := by
  obtain ⟨s, hrun, htest⟩ := System.exists_reachedBy_of_replay
    (dupeSystem (Qsort.insertionSorter _)) smallestState_isInitial (fun _ _ => true)
    (fillingCalls 15)
    (fun s => decide ((numberedCall 15 1).share ∈ s.memory.live) &&
      (s.table.checkForDupe (Qsort.insertionSorter _) twoJobsEnv
        (numberedCall 15 1).share).any fun result => !result.1)
    (fun _ _ _ => trivial) (by decide +kernel)
  rw [Bool.and_eq_true, Option.any_eq_true] at htest
  obtain ⟨hlive, ⟨seen, tbl'⟩, hcheck, hseen⟩ := htest
  obtain rfl : seen = false := Bool.not_eq_true' seen |>.mp hseen
  exact ⟨s, hrun, of_decide_eq_true hlive, tbl', hcheck⟩

end ChirpGateway
