import ChirpGateway.Lib.Qsort
import ChirpGateway.Lib.SlotChain
import ChirpGateway.Lib.Tables
import ChirpGateway.Lib.Wire

/-!
# The table of shares that were seen

`datum_stratum_dupes.c:78-358`: the items of one thread in an array, a chain
through them for every value of the low 16 bits of the nonce, and the clean-up when
the last slot is filled. A pointer to an item is the number of its slot. A chain
that does not end is `none`.
-/

namespace ChirpGateway

open SlotChain

/-- What shares are compared by. -/
structure DupeShare where
  nonce : UInt64
  jobIndex : Fin 256
  ntime : UInt64
  versionBits : UInt32
  extraNonceA : Nat
  extraNonceB : Nat
  deriving DecidableEq

/-- The share of these arguments, with the extranonce as two numbers. -/
def dupeShare (nonce : UInt64) (jobIndex : Fin 256) (ntime : UInt64) (versionBits : UInt32)
    (extranonceBin : List UInt8) : DupeShare where
  nonce
  jobIndex
  ntime
  versionBits
  extraNonceA := Wire.leValue (extranonceBin.take 8)
  extraNonceB := Wire.leValue ((extranonceBin.drop 8).take 4)

/-- The two numbers tell extranonces apart. -/
theorem dupeShare_inj {nonce nonce' ntime ntime' : UInt64} {jobIndex jobIndex' : Fin 256}
    {versionBits versionBits' : UInt32} {extranonceBin extranonceBin' : List UInt8}
    (hlen : extranonceBin.length = 12) (hlen' : extranonceBin'.length = 12) :
    dupeShare nonce jobIndex ntime versionBits extranonceBin =
        dupeShare nonce' jobIndex' ntime' versionBits' extranonceBin' ↔
      nonce = nonce' ∧ jobIndex = jobIndex' ∧ ntime = ntime' ∧ versionBits = versionBits' ∧
        extranonceBin = extranonceBin' := by
  constructor
  · intro h
    simp only [dupeShare, DupeShare.mk.injEq] at h
    obtain ⟨hnonce, hjob, hntime, hversion, hfront, hback⟩ := h
    have htake := Wire.eq_of_leValue_eq (by simp [hlen, hlen']) hfront
    have hdrop := Wire.eq_of_leValue_eq (by simp [hlen, hlen']) hback
    have hall (bytes : List UInt8) (hbytes : bytes.length = 12) :
        (bytes.drop 8).take 4 = bytes.drop 8 := by
      rw [List.take_of_length_le]
      rw [List.length_drop, hbytes]
    rw [hall _ hlen, hall _ hlen'] at hdrop
    refine ⟨hnonce, hjob, hntime, hversion, ?_⟩
    rw [← List.take_append_drop 8 extranonceBin, htake, hdrop, List.take_append_drop]
  · rintro ⟨rfl, rfl, rfl, rfl, rfl⟩
    rfl

/-- `T_DATUM_STRATUM_DUPE_ITEM`. -/
structure DupeItem where
  share : DupeShare
  next : Option Nat

/-- What `memset` leaves. -/
def zeroItem : DupeItem where
  share :=
    { nonce := 0, jobIndex := 0, ntime := 0, versionBits := 0, extraNonceA := 0, extraNonceB := 0 }
  next := none

/-- `T_DATUM_STRATUM_DUPES`. -/
structure DupeTable where
  index : UInt16 → Option Nat
  ptr : Nat → DupeItem
  maxItems : Nat
  currentItems : Nat

/-- What a clean-up reads besides the table: when the jobs were made, `none` for a
    slot without one, and `current_time_millis`. -/
structure DupeEnv where
  tsms : Fin 256 → Option UInt64
  now : UInt64
  /-- `stratum_v1_share_stale_seconds` -/
  shareStaleSeconds : Nat

/-- The time of the job of a share. -/
def DupeEnv.jobTime (env : DupeEnv) (share : DupeShare) : Option UInt64 :=
  env.tsms share.jobIndex

/-- `datum_stratum_dupes_cleanup_sort_compare`: later jobs first, no job last. -/
def dupeCompare (env : DupeEnv) (item1 item2 : DupeItem) : Int :=
  match env.jobTime item1.share, env.jobTime item2.share with
  | none, none => 0
  | none, some _ => 1
  | some _, none => -1
  | some tsms1, some tsms2 => if tsms1 > tsms2 then -1 else if tsms1 < tsms2 then 1 else 0

/-- `given_tsms`, in 64 bits. -/
def DupeEnv.givenTsms (env : DupeEnv) : UInt64 :=
  env.now - UInt64.ofNat (env.shareStaleSeconds * 1000)

/-- The job of the share is stale for a clean-up. -/
def DupeEnv.isStale (env : DupeEnv) (share : DupeShare) : Bool :=
  (env.jobTime share).getD 0 < env.givenTsms

/-- The loop of `find_first_less_than`; every round makes the range smaller. -/
def bisect (stale : Nat → Bool) : (fuel : Nat) → (low high result : Int) → Int
  | 0, _, _, result => result
  | fuel + 1, low, high, result =>
    if low ≤ high then
      let mid := low + (high - low) / 2
      if stale mid.toNat then bisect stale fuel low (mid - 1) mid
      else bisect stale fuel (mid + 1) high result
    else
      result

/-- `find_first_less_than` for the given time. -/
def findFirstLessThan (env : DupeEnv) (share : Nat → DupeShare) (maxItems : Nat) : Int :=
  bisect (fun i => env.isStale (share i)) (maxItems + 1) 0 (maxItems - 1) (-1)

/-- `datum_stratum_dupes_init` with so many slots. -/
def DupeTable.init (maxItems : Nat) : DupeTable where
  index := fun _ => none
  ptr := fun _ => zeroItem
  maxItems
  currentItems := 0

namespace DupeTable

variable (tbl : DupeTable)

def share (i : Nat) : DupeShare := (tbl.ptr i).share

def next (i : Nat) : Option Nat := (tbl.ptr i).next

/-- `nonce_index`. -/
def nonceIndex (i : Nat) : UInt16 := (tbl.share i).nonce.toUInt16

def nonce (i : Nat) : UInt64 := (tbl.share i).nonce

/-- `ptr[i].next = next`. -/
def setNext (i : Nat) (next : Option Nat) : DupeTable :=
  { tbl with ptr := Function.update tbl.ptr i { share := tbl.share i, next } }

/-- `index[k] = head`. -/
def setIndex (k : UInt16) (head : Option Nat) : DupeTable :=
  { tbl with index := Function.update tbl.index k head }

@[simp] theorem share_setNext (i : Nat) (next : Option Nat) :
    (tbl.setNext i next).share = tbl.share := by
  funext j
  by_cases hj : j = i
  · subst hj
    simp [setNext, share]
  · simp [setNext, share, Function.update_of_ne hj]

@[simp] theorem nonceIndex_setNext (i : Nat) (next : Option Nat) :
    (tbl.setNext i next).nonceIndex = tbl.nonceIndex := by
  funext j
  rw [nonceIndex, share_setNext, nonceIndex]

@[simp] theorem nonce_setNext (i : Nat) (next : Option Nat) :
    (tbl.setNext i next).nonce = tbl.nonce := by
  funext j
  rw [nonce, share_setNext, nonce]

@[simp] theorem next_setNext (i : Nat) (next : Option Nat) :
    (tbl.setNext i next).next = Function.update tbl.next i next := by
  funext j
  by_cases hj : j = i
  · subst hj
    simp [setNext, DupeTable.next]
  · simp [setNext, DupeTable.next, Function.update_of_ne hj]

@[simp] theorem index_setNext (i : Nat) (next : Option Nat) :
    (tbl.setNext i next).index = tbl.index := rfl

@[simp] theorem maxItems_setNext (i : Nat) (next : Option Nat) :
    (tbl.setNext i next).maxItems = tbl.maxItems := rfl

@[simp] theorem currentItems_setNext (i : Nat) (next : Option Nat) :
    (tbl.setNext i next).currentItems = tbl.currentItems := rfl

@[simp] theorem share_setIndex (k : UInt16) (head : Option Nat) :
    (tbl.setIndex k head).share = tbl.share := rfl

@[simp] theorem nonceIndex_setIndex (k : UInt16) (head : Option Nat) :
    (tbl.setIndex k head).nonceIndex = tbl.nonceIndex := rfl

@[simp] theorem nonce_setIndex (k : UInt16) (head : Option Nat) :
    (tbl.setIndex k head).nonce = tbl.nonce := rfl

@[simp] theorem next_setIndex (k : UInt16) (head : Option Nat) :
    (tbl.setIndex k head).next = tbl.next := rfl

@[simp] theorem index_setIndex (k : UInt16) (head : Option Nat) :
    (tbl.setIndex k head).index = Function.update tbl.index k head := rfl

@[simp] theorem maxItems_setIndex (k : UInt16) (head : Option Nat) :
    (tbl.setIndex k head).maxItems = tbl.maxItems := rfl

@[simp] theorem currentItems_setIndex (k : UInt16) (head : Option Nat) :
    (tbl.setIndex k head).currentItems = tbl.currentItems := rfl

/-! ## Cleaning up -/

/-- `datum_stratum_dupes_expand`: a quarter more slots, the new ones empty. -/
def expand : DupeTable :=
  let newMax := tbl.maxItems * 125 / 100
  { tbl with
    ptr := fun i => if tbl.maxItems ≤ i ∧ i < newMax then zeroItem else tbl.ptr i
    maxItems := newMax }

/-- The slots from `kept` on are cleared. -/
def clearFrom (kept : Nat) : DupeTable :=
  { tbl with
    ptr := fun i => if kept ≤ i ∧ i < tbl.maxItems then zeroItem else tbl.ptr i
    currentItems := kept }

theorem share_expand_of_lt {i : Nat} (hi : i < tbl.maxItems) :
    tbl.expand.share i = tbl.share i := by
  have hold : ¬ (tbl.maxItems ≤ i ∧ i < tbl.maxItems * 125 / 100) :=
    fun h => Nat.not_le_of_lt hi h.1
  simp only [share, expand, if_neg hold]

theorem share_expand_self (hgrows : tbl.maxItems < tbl.maxItems * 125 / 100) :
    tbl.expand.share tbl.maxItems = zeroItem.share := by
  have hnew : tbl.maxItems ≤ tbl.maxItems ∧ tbl.maxItems < tbl.maxItems * 125 / 100 :=
    ⟨Nat.le_refl _, hgrows⟩
  simp only [share, expand, if_pos hnew]

theorem share_clearFrom_of_lt {i kept : Nat} (hi : i < kept) :
    (tbl.clearFrom kept).share i = tbl.share i := by
  have hold : ¬ (kept ≤ i ∧ i < tbl.maxItems) := fun h => Nat.not_le_of_lt hi h.1
  simp only [share, clearFrom, if_neg hold]

theorem share_clearFrom_self {kept : Nat} (hkept : kept < tbl.maxItems) :
    (tbl.clearFrom kept).share kept = zeroItem.share := by
  have hnew : kept ≤ kept ∧ kept < tbl.maxItems := ⟨Nat.le_refl _, hkept⟩
  simp only [share, clearFrom, if_pos hnew]

/-- Slot `i` is linked in where its nonce belongs. -/
def linkAt (i : Nat) : Place Nat → DupeTable
  | .before none q => (tbl.setIndex (tbl.nonceIndex i) (some i)).setNext i (some q)
  | .before (some p) q => (tbl.setNext p (some i)).setNext i (some q)
  | .last q => (tbl.setNext q (some i)).setNext i none
  | .found => tbl

/-- The body of the loop of `datum_stratum_dupes_reorganize`. -/
def link (i : Nat) : Option DupeTable :=
  match tbl.index (tbl.nonceIndex i) with
  | none => some ((tbl.setIndex (tbl.nonceIndex i) (some i)).setNext i none)
  | some head =>
    (seek tbl.next (fun q => tbl.nonce i < tbl.nonce q) (fun _ => false) tbl.maxItems none head).map
      (tbl.linkAt i)

/-- The loop, from slot `i` on. An item with time zero is taken for a free slot. -/
def reorganizeFrom : (count i : Nat) → DupeTable → Option DupeTable
  | 0, i, tbl => some { tbl with currentItems := i }
  | count + 1, i, tbl =>
    if (tbl.share i).ntime = 0 then some { tbl with currentItems := i }
    else (tbl.link i).bind (reorganizeFrom count (i + 1))

/-- `datum_stratum_dupes_reorganize`. -/
def reorganize : Option DupeTable := reorganizeFrom tbl.maxItems 0 tbl

section Cleanup

variable (sorter : Qsort.Sorter DupeItem) (env : DupeEnv)

/-- The `qsort` over all slots, which leaves no link as it was. -/
def sortItems : DupeTable :=
  let items := sorter.sort (dupeCompare env) ((List.range tbl.maxItems).map tbl.ptr)
  { tbl with
    index := fun _ => none
    ptr := fun i => items.getD i (tbl.ptr i) }

/-- `datum_stratum_dupes_cleanup`, not a full wipe. -/
def cleanup : Option DupeTable :=
  let sorted := tbl.sortItems sorter env
  let i := findFirstLessThan env sorted.share sorted.maxItems
  let freed :=
    if i = -1 ∨ i = sorted.maxItems - 1 then sorted.expand
    else if i < (sorted.maxItems * 95 / 100 : Nat) then sorted.clearFrom i.toNat
    else sorted.expand
  freed.reorganize

/-! ## Checking a share -/

/-- A share is written to the next free slot, behind another one or alone. -/
def store (share : DupeShare) (insertAfter : Option Nat) : DupeTable :=
  let i := tbl.currentItems
  let stored : DupeTable := { tbl with
    ptr := Function.update tbl.ptr i { share, next := insertAfter.bind tbl.next }
    currentItems := i + 1 }
  match insertAfter with
  | none => stored
  | some p => stored.setNext p (some i)

/-- `datum_stratum_add_new_dupe`: the slot that was written to, and the table after
    a clean-up if that was the last one. -/
def addNewDupe (share : DupeShare) (insertAfter : Option Nat) : Option (Nat × DupeTable) :=
  let stored := tbl.store share insertAfter
  if stored.currentItems ≥ stored.maxItems then
    (stored.cleanup sorter env).map fun cleaned => (tbl.currentItems, cleaned)
  else
    some (tbl.currentItems, stored)

/-- `datum_stratum_check_for_dupe`: whether the share was seen, and the table with
    it. -/
def checkForDupe (share : DupeShare) : Option (Bool × DupeTable) :=
  let k := share.nonce.toUInt16
  match tbl.index k with
  | none => (tbl.addNewDupe sorter env share none).map fun added =>
      (false, added.2.setIndex k (some added.1))
  | some head =>
    (seek tbl.next (fun i => share.nonce < tbl.nonce i) (fun i => tbl.share i = share) tbl.maxItems
      none head).bind fun place =>
        match place with
        | .found => some (true, tbl)
        | .before (some p) _ => (tbl.addNewDupe sorter env share (some p)).map fun added =>
            (false, added.2)
        | .before none i => (tbl.addNewDupe sorter env share none).map fun added =>
            (false, (added.2.setIndex k (some added.1)).setNext added.1 (some i))
        | .last p => (tbl.addNewDupe sorter env share (some p)).map fun added => (false, added.2)

end Cleanup

theorem share_store (share : DupeShare) (insertAfter : Option Nat) :
    (tbl.store share insertAfter).share = Function.update tbl.share tbl.currentItems share := by
  have hstored (next : Option Nat) : DupeTable.share { tbl with
      ptr := Function.update tbl.ptr tbl.currentItems { share, next }
      currentItems := tbl.currentItems + 1 } =
      Function.update tbl.share tbl.currentItems share := by
    funext i
    by_cases hi : i = tbl.currentItems
    · subst hi
      simp [DupeTable.share]
    · simp [DupeTable.share, Function.update_of_ne hi]
  cases insertAfter with
  | none => exact hstored none
  | some p =>
    rw [store, share_setNext]
    exact hstored _

@[simp] theorem index_store (share : DupeShare) (insertAfter : Option Nat) :
    (tbl.store share insertAfter).index = tbl.index := by
  cases insertAfter <;> rfl

@[simp] theorem maxItems_store (share : DupeShare) (insertAfter : Option Nat) :
    (tbl.store share insertAfter).maxItems = tbl.maxItems := by
  cases insertAfter <;> rfl

@[simp] theorem currentItems_store (share : DupeShare) (insertAfter : Option Nat) :
    (tbl.store share insertAfter).currentItems = tbl.currentItems + 1 := by
  cases insertAfter <;> rfl

theorem next_store_none (share : DupeShare) :
    (tbl.store share none).next = Function.update tbl.next tbl.currentItems none := by
  funext i
  by_cases hi : i = tbl.currentItems
  · subst hi
    simp [store, DupeTable.next]
  · simp [store, DupeTable.next, Function.update_of_ne hi]

theorem next_store_some (share : DupeShare) (p : Nat) :
    (tbl.store share (some p)).next = Function.update
      (Function.update tbl.next tbl.currentItems (tbl.next p)) p (some tbl.currentItems) := by
  rw [store, next_setNext]
  congr 1
  funext i
  by_cases hi : i = tbl.currentItems
  · subst hi
    simp [DupeTable.next]
  · simp [DupeTable.next, Function.update_of_ne hi]

end DupeTable

end ChirpGateway
