import ChirpGateway.Lib.CyclicScan
import ChirpGateway.Lib.Transition
import ChirpGateway.Sockets.Slots
import Mathlib.Data.Fintype.Card
import Mathlib.Data.Finset.Range
import Mathlib.Data.List.Rotate

/-!
# The next free slot

How a thread knows where its next client goes (`datum_sockets.c:484-551`,
`datum_sockets.h:177-190`): a count of its clients, and the index of a slot that is free. The
index is looked for around the table when a client comes, and lowered when one goes. Each of
the two holds the lock of the thread.
-/

namespace ChirpGateway

open CyclicScan Transition

/-- The descriptors of the slots, 0 for a free one, and what is known of them. -/
structure ThreadSlots where
  fd : Nat → Int
  connectedClients : Int
  nextOpenClientIndex : Nat

/-- An insertion that returns 1. -/
structure SlotTaken where
  cid : Nat
  /-- `next_open_client_index` was in use, and a slot was looked for from the first on. -/
  hardWay : Bool
  after : ThreadSlots

/-- What happens to the slots. -/
inductive SlotEvent where
  | insert (fd : Int)
  | leave (cidWhoLeft : Nat)

namespace ThreadSlots

variable (maxClientsThread : Nat) (s : ThreadSlots)

/-- The slot for the next client, and whether it was found the hard way. -/
def openSlot : Option (Nat × Bool) :=
  if s.fd s.nextOpenClientIndex ≠ 0 then
    ((List.range maxClientsThread).find? fun i => s.fd i = 0).map fun cid => (cid, true)
  else some (s.nextOpenClientIndex, false)

/-- The part of `assign_to_thread` that holds the lock. There is nothing where the search for
    the next open slot does not end in so many turns, and an inner nothing where it returns 0. -/
def assignToThread (fuel : Nat) (fd : Int) : Option (Option SlotTaken) :=
  if s.connectedClients ≥ maxClientsThread then some none
  else
    match s.openSlot maxClientsThread with
    | none => some none
    | some (cid, hardWay) =>
      let first := if cid + 1 = maxClientsThread then 0 else cid + 1
      (scan (fun i => s.fd i = 0) maxClientsThread cid fuel first).map fun i =>
        some {
          cid
          hardWay
          after := {
            fd := Function.update s.fd cid fd
            connectedClients := s.connectedClients + 1
            nextOpenClientIndex := if i = cid then maxClientsThread - 1 else i } }

/-- `datum_socket_thread_client_count_decrement`. -/
def clientCountDecrement (cidWhoLeft : Nat) : ThreadSlots where
  fd := Function.update s.fd cidWhoLeft 0
  connectedClients := s.connectedClients - 1
  nextOpenClientIndex :=
    if cidWhoLeft < s.nextOpenClientIndex then cidWhoLeft else s.nextOpenClientIndex

/-- `clean_thread_data`. -/
structure IsClean : Prop where
  fd : ∀ i < maxClientsThread, s.fd i = 0
  connectedClients : s.connectedClients = 0
  nextOpenClientIndex : s.nextOpenClientIndex = 0

/-- A descriptor is not the one of the standard input, and only clients that are there leave. -/
def Allows : SlotEvent → Prop
  | .insert fd => fd ≠ 0
  | .leave cid => cid < maxClientsThread ∧ s.fd cid ≠ 0

/-- The slots in use. -/
def occupied : Finset Nat := (Finset.range maxClientsThread).filter fun i => s.fd i ≠ 0

/-- The count is right, and so is the index, while there is a slot that is free. On a full
    thread it is that of the last slot, so that it is right once that one is left. -/
structure Sound : Prop where
  counted : s.connectedClients = (s.occupied maxClientsThread).card
  free : s.connectedClients < maxClientsThread →
    s.nextOpenClientIndex < maxClientsThread ∧ s.fd s.nextOpenClientIndex = 0
  full : s.connectedClients = maxClientsThread →
    s.nextOpenClientIndex = maxClientsThread - 1

end ThreadSlots

/-- The runs of the slots of a thread. -/
def slotSystem (maxClientsThread : Nat) : System ThreadSlots SlotEvent where
  step s
    | .insert fd =>
      (s.assignToThread maxClientsThread maxClientsThread fd).map fun taken =>
        (taken.map SlotTaken.after).getD s
    | .leave cid => some (s.clientCountDecrement cid)

namespace ThreadSlots

variable {maxClientsThread : Nat} {s : ThreadSlots}

theorem mem_occupied {i : Nat} :
    i ∈ s.occupied maxClientsThread ↔ i < maxClientsThread ∧ s.fd i ≠ 0 := by
  simp [occupied]

theorem card_occupied_le (s : ThreadSlots) (maxClientsThread : Nat) :
    (s.occupied maxClientsThread).card ≤ maxClientsThread :=
  (Finset.card_filter_le _ _).trans (Nat.le_of_eq (Finset.card_range _))

theorem occupied_insert {cid : Nat} (hcid : cid < maxClientsThread) {fd : Int} (hfd : fd ≠ 0)
    (connectedClients : Int) (nextOpenClientIndex : Nat) :
    (ThreadSlots.mk (Function.update s.fd cid fd) connectedClients
      nextOpenClientIndex).occupied maxClientsThread =
      insert cid (s.occupied maxClientsThread) := by
  ext i
  rw [Finset.mem_insert, mem_occupied, mem_occupied]
  by_cases hi : i = cid
  · subst hi
    simp [hcid, hfd]
  · simp [hi]

theorem occupied_leave (cid : Nat) :
    (s.clientCountDecrement cid).occupied maxClientsThread =
      (s.occupied maxClientsThread).erase cid := by
  ext i
  rw [Finset.mem_erase, mem_occupied, mem_occupied]
  by_cases hi : i = cid
  · subst hi
    simp [clientCountDecrement]
  · simp [clientCountDecrement, hi]

theorem IsClean.sound (h : s.IsClean maxClientsThread) (hmax : 1 ≤ maxClientsThread) :
    s.Sound maxClientsThread := by
  have hnone : s.occupied maxClientsThread = ∅ := by
    rw [Finset.eq_empty_iff_forall_notMem]
    intro i hi
    obtain ⟨hlt, hfd⟩ := mem_occupied.mp hi
    exact hfd (h.fd i hlt)
  refine ⟨?_, fun _ => ?_, fun hfull => ?_⟩
  · rw [h.connectedClients, hnone]
    rfl
  · rw [h.nextOpenClientIndex]
    exact ⟨hmax, h.fd 0 hmax⟩
  · rw [h.connectedClients] at hfull
    omega

/-- An insertion on a thread that is not full takes the slot that is expected to be free. -/
theorem Sound.assignToThread_eq (h : s.Sound maxClientsThread)
    (hroom : s.connectedClients < maxClientsThread) {fuel : Nat} (hfuel : maxClientsThread ≤ fuel)
    (fd : Int) :
    ∃ found < maxClientsThread,
      (found ≠ s.nextOpenClientIndex → s.fd found = 0) ∧
      (found = s.nextOpenClientIndex →
        ∀ other < maxClientsThread, other ≠ s.nextOpenClientIndex → s.fd other ≠ 0) ∧
      s.assignToThread maxClientsThread fuel fd = some (some {
        cid := s.nextOpenClientIndex
        hardWay := false
        after := {
          fd := Function.update s.fd s.nextOpenClientIndex fd
          connectedClients := s.connectedClients + 1
          nextOpenClientIndex :=
            if found = s.nextOpenClientIndex then maxClientsThread - 1 else found } }) := by
  obtain ⟨hcid, hfree⟩ := h.free hroom
  have hopen : s.openSlot maxClientsThread = some (s.nextOpenClientIndex, false) :=
    if_neg (not_not.mpr hfree)
  obtain ⟨found, hfound, hscan, hnew, hpast⟩ :=
    scan_around (fun i => s.fd i = 0) hcid hfuel
  refine ⟨found, hfound, hnew, ?_, ?_⟩
  · rintro rfl other hother hne
    exact hpast other hother (toStop_pos hother hne)
  · rw [ThreadSlots.assignToThread, if_neg (by omega), hopen]
    dsimp only
    rw [next_of_lt hcid, hscan]
    rfl

/-- An insertion leaves the count and the index right. -/
theorem Sound.taken (h : s.Sound maxClientsThread)
    (hroom : s.connectedClients < maxClientsThread) {found : Nat}
    (hfound : found < maxClientsThread)
    (hnew : found ≠ s.nextOpenClientIndex → s.fd found = 0)
    (hlast : found = s.nextOpenClientIndex →
      ∀ other < maxClientsThread, other ≠ s.nextOpenClientIndex → s.fd other ≠ 0)
    {fd : Int} (hfd : fd ≠ 0) :
    (ThreadSlots.mk (Function.update s.fd s.nextOpenClientIndex fd) (s.connectedClients + 1)
      (if found = s.nextOpenClientIndex then maxClientsThread - 1 else found)).Sound
      maxClientsThread := by
  obtain ⟨hcid, hfree⟩ := h.free hroom
  have hnotin : s.nextOpenClientIndex ∉ s.occupied maxClientsThread := fun hmem =>
    (mem_occupied.mp hmem).2 hfree
  have hcount : ((insert s.nextOpenClientIndex (s.occupied maxClientsThread)).card : Int) =
      s.connectedClients + 1 := by
    rw [Finset.card_insert_of_notMem hnotin, h.counted]
    rfl
  refine ⟨?_, fun hstill => ?_, fun hfull => ?_⟩
  · rw [occupied_insert hcid hfd, hcount]
  · -- There is another free slot, which the search has found.
    have hother : found ≠ s.nextOpenClientIndex := by
      intro heq
      have hall : Finset.range maxClientsThread ⊆
          insert s.nextOpenClientIndex (s.occupied maxClientsThread) := by
        intro i hi
        rw [Finset.mem_insert, mem_occupied]
        rw [Finset.mem_range] at hi
        by_cases hsame : i = s.nextOpenClientIndex
        · exact Or.inl hsame
        · exact Or.inr ⟨hi, hlast heq i hi hsame⟩
      have hcard := Finset.card_le_card hall
      rw [Finset.card_range] at hcard
      dsimp only at hstill
      omega
    dsimp only
    rw [if_neg hother, Function.update_of_ne hother]
    exact ⟨hfound, hnew hother⟩
  · -- The slot was the last free one.
    have hsame : found = s.nextOpenClientIndex := by
      by_contra hother
      have hmissing : insert s.nextOpenClientIndex (s.occupied maxClientsThread) ⊆
          (Finset.range maxClientsThread).erase found := by
        intro i hi
        rw [Finset.mem_erase, Finset.mem_range]
        rcases Finset.mem_insert.mp hi with rfl | hi
        · exact ⟨Ne.symm hother, hcid⟩
        · obtain ⟨hlt, hbusy⟩ := mem_occupied.mp hi
          exact ⟨fun heq => hbusy (heq ▸ hnew hother), hlt⟩
      have hcard := Finset.card_le_card hmissing
      rw [Finset.card_erase_of_mem (Finset.mem_range.mpr hfound), Finset.card_range] at hcard
      dsimp only at hfull
      omega
    exact if_pos hsame

/-- Whatever an insertion comes to, the slots stay as they should be. -/
theorem Sound.assignToThread (h : s.Sound maxClientsThread) {fuel : Nat}
    (hfuel : maxClientsThread ≤ fuel) {fd : Int} (hfd : fd ≠ 0) {result : Option SlotTaken}
    (hassign : s.assignToThread maxClientsThread fuel fd = some result) :
    ((result.map SlotTaken.after).getD s).Sound maxClientsThread := by
  by_cases hroom : s.connectedClients < maxClientsThread
  · obtain ⟨found, hfound, hnew, hlast, htaken⟩ := h.assignToThread_eq hroom hfuel fd
    obtain rfl := Option.some.inj (htaken.symm.trans hassign)
    exact h.taken hroom hfound hnew hlast hfd
  · have hrefused : s.assignToThread maxClientsThread fuel fd = some none := if_pos (by omega)
    obtain rfl := Option.some.inj (hrefused.symm.trans hassign)
    exact h

/-- A departure lowers the index to the slot that is left, if that is lower. -/
theorem Sound.clientCountDecrement (h : s.Sound maxClientsThread) {cid : Nat}
    (hcid : cid < maxClientsThread) (hfd : s.fd cid ≠ 0) :
    (s.clientCountDecrement cid).Sound maxClientsThread := by
  have hmem : cid ∈ s.occupied maxClientsThread := mem_occupied.mpr ⟨hcid, hfd⟩
  have hcard := Finset.card_erase_add_one hmem
  have hle := card_occupied_le s maxClientsThread
  have hcounted := h.counted
  have hafter : (s.clientCountDecrement cid).connectedClients = s.connectedClients - 1 := rfl
  refine ⟨?_, fun _ => ?_, fun hfull => ?_⟩
  · rw [occupied_leave, hafter]
    omega
  · by_cases hlower : cid < s.nextOpenClientIndex
    · simp [ThreadSlots.clientCountDecrement, hlower, hcid]
    · -- A full thread expects its last slot, and another one a slot that was free before.
      simp only [ThreadSlots.clientCountDecrement, if_neg hlower]
      rcases lt_or_eq_of_le (show s.connectedClients ≤ maxClientsThread by omega) with
        hroom | hfull
      · obtain ⟨hnext, hfree⟩ := h.free hroom
        have hne : s.nextOpenClientIndex ≠ cid := fun heq => hfd (heq ▸ hfree)
        rw [Function.update_of_ne hne]
        exact ⟨hnext, hfree⟩
      · have hlast := h.full hfull
        have hsame : s.nextOpenClientIndex = cid := by omega
        rw [hsame, Function.update_self]
        exact ⟨hcid, rfl⟩
  · omega

end ThreadSlots

/-- What holds of the slots in every run. -/
theorem sound_of_reachable {maxClientsThread : Nat} (hmax : 1 ≤ maxClientsThread)
    {s : ThreadSlots}
    (h : (slotSystem maxClientsThread).ReachedBy (ThreadSlots.Allows maxClientsThread)
      (ThreadSlots.IsClean maxClientsThread) s) : s.Sound maxClientsThread := by
  refine h.invariant (fun _ hclean => hclean.sound hmax) fun s event s' hsound hallows hstep => ?_
  cases event with
  | insert fd =>
    obtain ⟨result, hassign, rfl⟩ := Option.map_eq_some_iff.mp hstep
    exact hsound.assignToThread (Nat.le_refl _) hallows hassign
  | leave cid =>
    cases hstep
    exact hsound.clientCountDecrement hallows.1 hallows.2

/-- In every run the count is that of the slots in use; below the maximum the index names a
    free slot; and an insertion ends, takes a free slot without looking for it the hard way,
    and is refused at the maximum only. -/
theorem slots_of_reachable {maxClientsThread : Nat} (hmax : 1 ≤ maxClientsThread)
    {s : ThreadSlots}
    (h : (slotSystem maxClientsThread).ReachedBy (ThreadSlots.Allows maxClientsThread)
      (ThreadSlots.IsClean maxClientsThread) s) :
    s.connectedClients = ((Finset.range maxClientsThread).filter fun i => s.fd i ≠ 0).card ∧
    (s.connectedClients < maxClientsThread →
      s.nextOpenClientIndex < maxClientsThread ∧ s.fd s.nextOpenClientIndex = 0) ∧
    ∀ fd fuel, maxClientsThread ≤ fuel →
      ∃ result, s.assignToThread maxClientsThread fuel fd = some result ∧
        (result = none ↔ s.connectedClients = maxClientsThread) ∧
        ∀ taken ∈ result, taken.hardWay = false ∧ taken.cid < maxClientsThread ∧
          s.fd taken.cid = 0 := by
  have hsound := sound_of_reachable hmax h
  have hle := ThreadSlots.card_occupied_le s maxClientsThread
  have hcounted := hsound.counted
  refine ⟨hcounted, hsound.free, fun fd fuel hfuel => ?_⟩
  by_cases hroom : s.connectedClients < maxClientsThread
  · obtain ⟨found, -, -, -, hassign⟩ := hsound.assignToThread_eq hroom hfuel fd
    obtain ⟨hnext, hfree⟩ := hsound.free hroom
    refine ⟨_, hassign, iff_of_false (by simp) (by omega), ?_⟩
    rintro taken ⟨⟩
    exact ⟨rfl, hnext, hfree⟩
  · exact ⟨none, if_pos (by omega), iff_of_true rfl (by omega),
      fun taken htaken => nomatch htaken⟩

/-- A thread for two clients that was full, and lost its first. -/
theorem lostFirst_slots :
    ∃ s, (slotSystem 2).ReachedBy (ThreadSlots.Allows 2) (ThreadSlots.IsClean 2) s ∧
      s.fd 1 = 8 ∧
      s.connectedClients = ((Finset.range 2).filter fun i => s.fd i ≠ 0).card ∧
      s.nextOpenClientIndex < 2 ∧ s.fd s.nextOpenClientIndex = 0 := by
  have hclean : (slotSystem 2).ReachedBy (ThreadSlots.Allows 2) (ThreadSlots.IsClean 2)
      ⟨fun _ => 0, 0, 0⟩ := .start ⟨fun _ _ => rfl, rfl, rfl⟩
  have hfirst := hclean.step (a := SlotEvent.insert 7) (show (7 : Int) ≠ 0 by decide) rfl
  have hsecond := hfirst.step (a := SlotEvent.insert 8) (show (8 : Int) ≠ 0 by decide) rfl
  have hlost := hsecond.step (a := SlotEvent.leave 0) ⟨by decide, by decide⟩ rfl
  obtain ⟨hcounted, hopen, -⟩ := slots_of_reachable (by decide) hlost
  obtain ⟨hnext, hfree⟩ := hopen (by decide)
  exact ⟨_, hlost, rfl, hcounted, hnext, hfree⟩

/-! ## The slots of a table of clients -/

namespace SlotTable

variable {maxClients : Nat} (t : SlotTable maxClients)

/-- The descriptors of the clients. -/
def threadSlots : ThreadSlots where
  fd i := if h : i < maxClients then (t.slots ⟨i, h⟩).fd else 0
  connectedClients := t.connectedClients
  nextOpenClientIndex := t.nextOpenClientIndex

theorem threadSlots_fd (slot : Fin maxClients) : t.threadSlots.fd slot = (t.slots slot).fd := by
  simp [threadSlots]

theorem free_comp_val : ((fun i => decide (t.threadSlots.fd i = 0)) ∘ Fin.val) =
    fun slot => decide ((t.slots slot).fd = 0) := by
  funext slot
  simp [threadSlots_fd]

/-- Another client in a slot is another descriptor there. -/
theorem threadSlots_update (cid : Fin maxClients) (c : ClientSlot) :
    { t with slots := Function.update t.slots cid c }.threadSlots.fd =
      Function.update t.threadSlots.fd cid c.fd := by
  funext i
  by_cases hi : i < maxClients
  · by_cases hsame : i = cid
    · simp [threadSlots, hsame]
    · have hother : (⟨i, hi⟩ : Fin maxClients) ≠ cid :=
        fun heq => hsame (congrArg Fin.val heq)
      simp [threadSlots, hi, hsame, hother]
  · have hother : i ≠ cid := fun heq => hi (heq ▸ cid.isLt)
    simp [threadSlots, hi, hother]

/-- The slots behind one, around the end of the table. -/
theorem map_val_rotate (cid : Fin maxClients) :
    ((List.finRange maxClients).rotate (cid + 1)).dropLast.map Fin.val =
      around maxClients cid := by
  apply List.ext_getElem
  · simp [around]
  · intro turn hturn hother
    simp [around, List.getElem_rotate, Nat.add_comm]

/-- The search goes around the table as the loop does. -/
theorem scan_eq_nextOpen (cid : Fin maxClients) :
    ∃ i, scan (fun i => t.threadSlots.fd i = 0) maxClients cid maxClients (next maxClients cid) =
        some i ∧
      (if i = cid then maxClients - 1 else i) = t.nextOpen cid := by
  refine ⟨_, scan_next_eq _ cid.isLt (Nat.le_refl _), ?_⟩
  rw [← map_val_rotate, List.find?_map, free_comp_val, nextOpen]
  cases hfound : ((List.finRange maxClients).rotate (cid + 1)).dropLast.find?
      fun slot => (t.slots slot).fd = 0 with
  | none => exact if_pos rfl
  | some slot =>
    have hplace : slot.val ∈ around maxClients cid := by
      rw [← map_val_rotate]
      exact List.mem_map_of_mem (List.mem_of_find?_eq_some hfound)
    exact if_neg (ne_stop_of_mem_around cid.isLt hplace)

theorem openSlot_threadSlots : t.threadSlots.openSlot maxClients =
    t.openIndex.map fun cid => (cid.val, decide ((t.slots t.nextOpenClientIndex).fd ≠ 0)) := by
  have hnext : t.threadSlots.fd t.threadSlots.nextOpenClientIndex =
      (t.slots t.nextOpenClientIndex).fd := t.threadSlots_fd t.nextOpenClientIndex
  rw [ThreadSlots.openSlot, hnext, openIndex]
  by_cases hfree : (t.slots t.nextOpenClientIndex).fd = 0
  · simp [hfree, threadSlots]
  · have hrange : List.range maxClients = (List.finRange maxClients).map Fin.val := by
      simp
    rw [if_pos (by simpa using hfree), if_neg hfree, hrange, List.find?_map,
      free_comp_val, Option.map_map]
    simp [hfree, Function.comp_def]

/-- A connection is put where the loop says, and the slots are then those of the table. -/
theorem assignToThread_threadSlots (fd : Nat) :
    (t.threadSlots.assignToThread maxClients maxClients fd).map (Option.map SlotTaken.after) =
      some ((t.assignToThread fd).map threadSlots) := by
  rw [ThreadSlots.assignToThread, assignToThread]
  have hcount : t.threadSlots.connectedClients = t.connectedClients := rfl
  rw [hcount, openSlot_threadSlots]
  by_cases hroom : t.connectedClients ≥ maxClients
  · rw [if_pos hroom, if_pos hroom]
    rfl
  rw [if_neg hroom, if_neg hroom]
  cases hopen : t.openIndex with
  | none => rfl
  | some cid =>
    obtain ⟨i, hscan, hindex⟩ := t.scan_eq_nextOpen cid
    have hfd := t.threadSlots_update cid ((t.slots cid).prepare fd t.accepted)
    rw [Option.map_some]
    dsimp only
    rw [next_of_lt cid.isLt, hscan]
    simp only [Option.map_some, Option.some.injEq]
    rw [hindex]
    exact congrArg (ThreadSlots.mk · (t.connectedClients + 1) (t.nextOpen cid)) hfd.symm

theorem countDecrement_threadSlots (cid : Fin maxClients) :
    (t.countDecrement cid).threadSlots = t.threadSlots.clientCountDecrement cid := by
  have hfd := t.threadSlots_update cid { t.slots cid with fd := 0, occupant := none }
  have hindex : (if cid < t.nextOpenClientIndex then cid else t.nextOpenClientIndex).val =
      if cid.val < t.nextOpenClientIndex.val then cid.val else t.nextOpenClientIndex.val :=
    apply_ite Fin.val _ _ _
  exact congr (congrArg (ThreadSlots.mk · (t.connectedClients - 1)) hfd) hindex

/-- So what holds of the slots holds of a table that a connection was put into. -/
theorem sound_of_assignToThread {t t' : SlotTable maxClients} (h : t.threadSlots.Sound maxClients)
    {fd : Nat} (hfd : fd ≠ 0) (hassign : t.assignToThread fd = some t') :
    t'.threadSlots.Sound maxClients := by
  obtain ⟨result, hresult, hafter⟩ :=
    Option.map_eq_some_iff.mp (t.assignToThread_threadSlots fd)
  have hsound := h.assignToThread (Nat.le_refl _) (Int.natCast_ne_zero.mpr hfd) hresult
  rwa [hafter, hassign] at hsound

/-- And of one that a client was counted out of. -/
theorem sound_countDecrement {t : SlotTable maxClients} (h : t.threadSlots.Sound maxClients)
    {cid : Fin maxClients} (hfd : (t.slots cid).fd ≠ 0) :
    (t.countDecrement cid).threadSlots.Sound maxClients := by
  rw [countDecrement_threadSlots]
  apply h.clientCountDecrement cid.isLt
  rw [threadSlots_fd]
  exact Int.natCast_ne_zero.mpr hfd

/-- A thread that is not full has its expected slot free. -/
theorem openIndex_of_sound {t : SlotTable maxClients} (h : t.threadSlots.Sound maxClients)
    (hroom : t.connectedClients < maxClients) : t.openIndex = some t.nextOpenClientIndex := by
  obtain ⟨-, hfree⟩ := h.free hroom
  have hfd : t.threadSlots.fd t.nextOpenClientIndex = 0 := hfree
  rw [threadSlots_fd, Int.natCast_eq_zero] at hfd
  exact if_pos hfd

end SlotTable

end ChirpGateway
