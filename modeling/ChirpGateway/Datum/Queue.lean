import ChirpGateway.Lib.Tables
import ChirpGateway.Lib.Transition
import Mathlib.Algebra.Group.Nat.Defs
import Mathlib.Data.List.Basic
import Mathlib.Logic.Function.Basic

/-!
# The queue of shares

`datum_queue.c`: any number of threads add items to one of two buffers while one
thread takes the items of the other. Each section under locks is a step. The
buffers are two parts of one piece of memory, counted in items.
-/

namespace ChirpGateway

open Transition

variable {τ α : Type}

/-- A call of `datum_queue_add_item`. `tries` counts the turns of its loop. -/
inductive AddCall (α : Type) where
  | idle
  /-- before it looks which buffer is active -/
  | looking (item : α) (tries : Nat)
  /-- before it locks that buffer -/
  | locking (item : α) (tries : Nat) (bufferId : Fin 2) (bufferVersion : UInt64)

/-- A call of `datum_queue_process`. -/
inductive ProcessCall where
  | idle
  /-- there are items in the buffer -/
  | counted (bufferId : Fin 2)
  /-- `active_buffer_rwlock` is held -/
  | activeLocked (bufferId : Fin 2)
  /-- the lock of the buffer is held as well -/
  | bufferLocked (bufferId : Fin 2)
  /-- the lock of the buffer is held while its items are handled -/
  | handling (bufferId : Fin 2) (i : Nat)
  deriving DecidableEq

/-- `DATUM_QUEUE` and the calls. The last four are not in the source: what was
    returned for which item, what was handled, how often the buffers were swapped,
    and how many items were in when `datum_queue_process` was last called. -/
structure QueueState (τ α : Type) where
  activeBuffer : Fin 2
  activeBufferVersion : UInt64
  queueNext : Fin 2 → Nat
  queueVersion : Fin 2 → UInt64
  mem : Nat → Option α
  adds : τ → AddCall α
  process : ProcessCall
  returned : List (α × Int)
  handled : List (Option α)
  swaps : Nat
  begun : Nat

/-- Steps of the threads. -/
inductive QueueEvent (τ α : Type) where
  | call (thread : τ) (item : α)
  | look (thread : τ)
  | store (thread : τ)
  | giveUp (thread : τ)
  | process
  | lockActive
  | lockBuffer
  | swap
  | handle
  | processEnd

/-- The steps of the thread that takes items out. -/
def QueueEvent.OfProcess : QueueEvent τ α → Prop
  | .call _ _ | .look _ | .store _ | .giveUp _ => False
  | _ => True

/-- After that many turns the loop takes no lock any more. -/
def maxAddTries : Nat := 9999999

namespace QueueState

/-- `active_buffer_rwlock` is held for writing. -/
def activeHeld (s : QueueState τ α) : Bool :=
  match s.process with
  | .activeLocked _ | .bufferLocked _ => true
  | _ => false

/-- `buffer_rwlock[b]` is held for writing. -/
def bufferHeld (s : QueueState τ α) (b : Fin 2) : Bool :=
  match s.process with
  | .bufferLocked held | .handling held _ => b = held
  | _ => false

def setAdd [DecidableEq τ] (s : QueueState τ α) (thread : τ) (call : AddCall α) :
    QueueState τ α :=
  { s with adds := Function.update s.adds thread call }

/-- The items of the calls that returned 0, in the order of the calls' stores. -/
def stored (s : QueueState τ α) : List α :=
  (s.returned.filter fun entry => entry.2 = 0).map Prod.fst

section Steps

variable [DecidableEq τ] (maxEntries : Nat)

/-- The place of an item; the buffers have sixteen places more than they use. -/
def place (b : Fin 2) (i : Nat) : Nat := b.val * (maxEntries + 16) + i

/-- `datum_queue_prep`. -/
def prep : QueueState τ α where
  activeBuffer := 0
  activeBufferVersion := 0
  queueNext _ := 0
  queueVersion b := if b = 1 then 10 else 0
  mem _ := none
  adds _ := .idle
  process := .idle
  returned := []
  handled := []
  swaps := 0
  begun := 0

/-- With the buffer locked, if it is still the one that was looked up. -/
def storeItem (s : QueueState τ α) (thread : τ) (item : α) (tries : Nat) (b : Fin 2)
    (version : UInt64) : QueueState τ α :=
  if version ≠ s.queueVersion b then
    s.setAdd thread (.looking item (tries + 1))
  else if s.queueNext b ≥ maxEntries then
    { s.setAdd thread .idle with returned := s.returned ++ [(item, -1)] }
  else
    { s.setAdd thread .idle with
      mem := Function.update s.mem (place maxEntries b (s.queueNext b)) (some item)
      queueNext := Function.update s.queueNext b (s.queueNext b + 1)
      returned := s.returned ++ [(item, 0)] }

def step (s : QueueState τ α) : QueueEvent τ α → Option (QueueState τ α)
  | .call thread item =>
    match s.adds thread with
    | .idle => some (s.setAdd thread (.looking item 0))
    | _ => none
  | .look thread =>
    match s.adds thread with
    | .looking item tries =>
      if tries < maxAddTries ∧ s.activeHeld = false then
        some (s.setAdd thread (.locking item tries s.activeBuffer s.activeBufferVersion))
      else
        none
    | _ => none
  | .store thread =>
    match s.adds thread with
    | .locking item tries b version =>
      if s.bufferHeld b then none else some (s.storeItem maxEntries thread item tries b version)
    | _ => none
  | .giveUp thread =>
    match s.adds thread with
    | .looking item tries =>
      if tries < maxAddTries then
        none
      else
        some { s.setAdd thread .idle with returned := s.returned ++ [(item, -1)] }
    | _ => none
  | .process =>
    if s.process = .idle then
      some
        { s with
          process := if s.queueNext s.activeBuffer = 0 then .idle else .counted s.activeBuffer
          begun := s.stored.length }
    else
      none
  | .lockActive =>
    match s.process with
    | .counted b => some { s with process := .activeLocked b }
    | _ => none
  | .lockBuffer =>
    match s.process with
    | .activeLocked b =>
      some
        { s with
          process := .bufferLocked b
          queueVersion := Function.update s.queueVersion b (s.queueVersion b + 1) }
    | _ => none
  | .swap =>
    match s.process with
    | .bufferLocked b =>
      let offline : Fin 2 := if b = 0 then 1 else 0
      let version := s.queueVersion offline + 1
      some
        { s with
          process := .handling b 0
          queueVersion := Function.update s.queueVersion offline version
          activeBufferVersion := version
          activeBuffer := offline
          queueNext := Function.update s.queueNext offline 0
          swaps := s.swaps + 1 }
    | _ => none
  | .handle =>
    match s.process with
    | .handling b i =>
      if i < s.queueNext b then
        some
          { s with
            process := .handling b (i + 1)
            handled := s.handled ++ [s.mem (place maxEntries b i)] }
      else
        none
    | _ => none
  | .processEnd =>
    match s.process with
    | .handling b i =>
      if i < s.queueNext b then
        none
      else
        some { s with process := .idle, queueNext := Function.update s.queueNext b 0 }
    | _ => none

end Steps

end QueueState

/-- The queue for so many items a buffer. -/
def queueSystem (τ α : Type) [DecidableEq τ] (maxEntries : Nat) :
    System (QueueState τ α) (QueueEvent τ α) where
  step := QueueState.step maxEntries

/-! ## What the versions rule out -/

/-- The version a buffer starts with. -/
def versionSkew (b : Fin 2) : Nat := if b = 1 then 10 else 0

/-- The buffer and the version that were active after so many swaps. -/
def ActiveAfter (swaps : Nat) (b : Fin 2) (version : UInt64) : Prop :=
  b.val = swaps % 2 ∧ version.toNat = (versionSkew b + swaps) % 2 ^ 64

/-- A version is never that of the buffer while the buffer is offline, however often
    the counters went around. -/
theorem ActiveAfter.parity {swaps now : Nat} {b : Fin 2} {version : UInt64}
    (h : ActiveAfter swaps b version)
    (hsame : version.toNat = (versionSkew b + now) % 2 ^ 64) : b.val = now % 2 := by
  have hversion := h.2
  rw [h.1]
  omega

section Offline

variable {b offline : Fin 2}

/-- The buffers take turns. -/
theorem parity_offline {swaps : Nat} (hoffline : offline = if b = 0 then 1 else 0)
    (hactive : b.val = swaps % 2) : offline.val = (swaps + 1) % 2 := by
  rw [hoffline]
  split_ifs with hzero
  · rw [hzero, Fin.val_zero] at hactive
    rw [Fin.val_one]
    omega
  · have hone : b.val = 1 := by omega
    rw [Fin.val_zero]
    omega

theorem eq_offline_or_eq (hoffline : offline = if b = 0 then 1 else 0) (c : Fin 2) :
    c = offline ∨ c = b := by
  rw [hoffline]
  split_ifs <;> omega

end Offline

namespace QueueState

section Items

variable (maxEntries : Nat)

/-- The items in a buffer. -/
def bufferItems (s : QueueState τ α) (b : Fin 2) : List (Option α) :=
  (List.range (s.queueNext b)).map fun i => s.mem (place maxEntries b i)

/-- What is still to be handled: the rest of the buffer that was taken, and the items of
    the active one. -/
def waiting (s : QueueState τ α) : List (Option α) :=
  (match s.process with
    | .handling b i => (s.bufferItems maxEntries b).drop i
    | _ => []) ++ s.bufferItems maxEntries s.activeBuffer

/-- How many items the call of `datum_queue_process` has still to handle. -/
def batch (s : QueueState τ α) : Nat :=
  match s.process with
  | .idle => 0
  | .handling b i => s.queueNext b - i
  | _ => s.queueNext s.activeBuffer

/-- Which buffer the call of `datum_queue_process` is about. -/
def ProcessesRight (s : QueueState τ α) : Prop :=
  match s.process with
  | .idle => True
  | .counted b | .activeLocked b | .bufferLocked b => b = s.activeBuffer
  | .handling b i => b ≠ s.activeBuffer ∧ i ≤ s.queueNext b

/-- Nothing is taken out of order and nothing is lost. -/
structure Consistent (s : QueueState τ α) : Prop where
  active : ActiveAfter s.swaps s.activeBuffer s.activeBufferVersion
  version : ∀ b, (s.queueVersion b).toNat =
    (versionSkew b + s.swaps + if s.process = .bufferLocked b then 1 else 0) % 2 ^ 64
  locking : ∀ thread item tries b version, s.adds thread = .locking item tries b version →
    ∃ swaps, ActiveAfter swaps b version
  process : s.ProcessesRight
  offline : ∀ b ≠ s.activeBuffer, (∀ i, s.process ≠ .handling b i) → s.queueNext b = 0
  room : ∀ b, s.queueNext b ≤ maxEntries
  items : s.handled ++ s.waiting maxEntries = s.stored.map some
  begun : s.begun ≤ s.handled.length + s.batch

variable {maxEntries}

theorem length_bufferItems (s : QueueState τ α) (b : Fin 2) :
    (s.bufferItems maxEntries b).length = s.queueNext b := by
  rw [bufferItems, List.length_map, List.length_range]

/-- Only places in use matter. -/
theorem bufferItems_congr {s s' : QueueState τ α} {b : Fin 2}
    (hnext : s'.queueNext b = s.queueNext b)
    (hmem : ∀ i < s.queueNext b, s'.mem (place maxEntries b i) = s.mem (place maxEntries b i)) :
    s'.bufferItems maxEntries b = s.bufferItems maxEntries b := by
  rw [bufferItems, bufferItems, hnext]
  apply List.map_congr_left
  intro i hi
  exact hmem i (List.mem_range.mp hi)

theorem place_ne {b c : Fin 2} {i j : Nat} (hi : i ≤ maxEntries) (hj : j ≤ maxEntries)
    (h : b ≠ c ∨ i ≠ j) : place maxEntries b i ≠ place maxEntries c j := by
  unfold place
  have hb : b = 0 ∨ b = 1 := by omega
  have hc : c = 0 ∨ c = 1 := by omega
  rcases hb with rfl | rfl <;> rcases hc with rfl | rfl
  · rcases h with h | h
    · exact absurd rfl h
    · simpa using h
  · show 0 * _ + i ≠ 1 * _ + j
    omega
  · show 1 * _ + i ≠ 0 * _ + j
    omega
  · rcases h with h | h
    · exact absurd rfl h
    · simpa using h

/-- The item stored behind the others. -/
theorem bufferItems_of_store {s s' : QueueState τ α} {b : Fin 2} {item : α}
    (hroom : s.queueNext b ≤ maxEntries)
    (hnext : s'.queueNext b = s.queueNext b + 1)
    (hmem : s'.mem = Function.update s.mem (place maxEntries b (s.queueNext b)) (some item)) :
    s'.bufferItems maxEntries b = s.bufferItems maxEntries b ++ [some item] := by
  rw [bufferItems, hnext, List.range_succ, List.map_append, List.map_singleton, hmem,
    Function.update_self, bufferItems]
  congr 1
  apply List.map_congr_left
  intro i hi
  have hlt := List.mem_range.mp hi
  rw [Function.update_of_ne]
  exact place_ne (by omega) hroom (Or.inr (Nat.ne_of_lt hlt))

end Items

variable {maxEntries : Nat}

theorem stored_append (s : QueueState τ α) (item : α) (code : Int) :
    stored { s with returned := s.returned ++ [(item, code)] } =
      s.stored ++ if code = 0 then [item] else [] := by
  unfold stored
  rw [List.filter_append, List.map_append]
  by_cases hcode : code = 0
  · simp [hcode]
  · simp [hcode]

/-- A thread moves on inside its call. -/
theorem Consistent.setAdd [DecidableEq τ] {s : QueueState τ α} (h : s.Consistent maxEntries)
    (thread : τ)
    {call : AddCall α}
    (hcall : ∀ item tries b version, call = .locking item tries b version →
      ∃ swaps, ActiveAfter swaps b version) : (s.setAdd thread call).Consistent maxEntries := by
  refine ⟨h.active, h.version, ?_, h.process, h.offline, h.room, h.items, h.begun⟩
  intro other item tries b version hother
  by_cases hthread : other = thread
  · subst hthread
    have hself : (s.setAdd other call).adds other = call := Function.update_self _ _ _
    exact hcall item tries b version (hself.symm.trans hother)
  · have hkept : (s.setAdd thread call).adds other = s.adds other :=
      Function.update_of_ne hthread _ _
    exact h.locking other item tries b version (hkept.symm.trans hother)

/-- A call that returns -1 has stored nothing. -/
theorem Consistent.refused {s : QueueState τ α} (h : s.Consistent maxEntries) (item : α) :
    Consistent maxEntries { s with returned := s.returned ++ [(item, -1)] } := by
  refine ⟨h.active, h.version, h.locking, h.process, h.offline, h.room, ?_, h.begun⟩
  rw [stored_append, if_neg (by decide), List.append_nil]
  exact h.items

/-- A buffer whose version is as it was looked up, and that is not taken, is active. -/
theorem Consistent.active_of_version_eq {s : QueueState τ α} (h : s.Consistent maxEntries)
    {swaps : Nat} {b : Fin 2} {version : UInt64} (hactive : ActiveAfter swaps b version)
    (hversion : version = s.queueVersion b) (hheld : s.bufferHeld b = false) :
    b = s.activeBuffer := by
  have hnotLocked : s.process ≠ .bufferLocked b := by
    intro hlocked
    rw [bufferHeld, hlocked] at hheld
    exact absurd (of_decide_eq_false hheld) (not_not.mpr rfl)
  have hsame := h.version b
  rw [if_neg hnotLocked, ← hversion, Nat.add_zero] at hsame
  exact Fin.ext ((hactive.parity hsame).trans h.active.1.symm)

/-- An item is stored behind those that wait. -/
theorem Consistent.store {s : QueueState τ α} (h : s.Consistent maxEntries) (item : α)
    (hroom : s.queueNext s.activeBuffer < maxEntries) :
    Consistent maxEntries
      { s with
        mem := Function.update s.mem (place maxEntries s.activeBuffer (s.queueNext s.activeBuffer))
          (some item)
        queueNext := Function.update s.queueNext s.activeBuffer (s.queueNext s.activeBuffer + 1)
        returned := s.returned ++ [(item, 0)] } := by
  set s' : QueueState τ α :=
    { s with
      mem := Function.update s.mem (place maxEntries s.activeBuffer (s.queueNext s.activeBuffer))
        (some item)
      queueNext := Function.update s.queueNext s.activeBuffer (s.queueNext s.activeBuffer + 1)
      returned := s.returned ++ [(item, 0)] } with hs'
  have hactiveNext : s'.queueNext s.activeBuffer = s.queueNext s.activeBuffer + 1 :=
    Function.update_self _ _ _
  have hotherNext : ∀ b ≠ s.activeBuffer, s'.queueNext b = s.queueNext b :=
    fun b hb => Function.update_of_ne hb _ _
  have hactiveItems : s'.bufferItems maxEntries s.activeBuffer =
      s.bufferItems maxEntries s.activeBuffer ++ [some item] :=
    bufferItems_of_store (h.room _) hactiveNext rfl
  have hotherItems : ∀ b ≠ s.activeBuffer,
      s'.bufferItems maxEntries b = s.bufferItems maxEntries b := by
    intro b hb
    apply bufferItems_congr (hotherNext b hb)
    intro i hi
    have hfits := h.room b
    exact Function.update_of_ne (place_ne (by omega) (h.room _) (Or.inl hb)) _ _
  have hstored : s'.stored = s.stored ++ [item] := stored_append s item 0
  have hprocess := h.process
  refine ⟨h.active, h.version, h.locking, ?_, ?_, ?_, ?_, ?_⟩
  · unfold ProcessesRight at hprocess ⊢
    show match s.process with
      | .idle => True
      | .counted b | .activeLocked b | .bufferLocked b => b = s.activeBuffer
      | .handling b i => b ≠ s.activeBuffer ∧ i ≤ s'.queueNext b
    cases hcall : s.process with
    | handling b i =>
      rw [hcall] at hprocess
      exact ⟨hprocess.1, (hotherNext b hprocess.1).symm ▸ hprocess.2⟩
    | idle => trivial
    | counted b => rwa [hcall] at hprocess
    | activeLocked b => rwa [hcall] at hprocess
    | bufferLocked b => rwa [hcall] at hprocess
  · intro b hb hidle
    rw [hotherNext b hb]
    exact h.offline b hb hidle
  · intro b
    by_cases hb : b = s.activeBuffer
    · rw [hb, hactiveNext]
      exact hroom
    · rw [hotherNext b hb]
      exact h.room b
  · show s.handled ++ s'.waiting maxEntries = s'.stored.map some
    have hwaiting : s'.waiting maxEntries = s.waiting maxEntries ++ [some item] := by
      unfold waiting
      show _ ++ s'.bufferItems maxEntries s.activeBuffer = _
      rw [hactiveItems, ← List.append_assoc]
      congr 2
      show (match s.process with
        | .handling b i => (s'.bufferItems maxEntries b).drop i
        | _ => []) = _
      cases hcall : s.process with
      | handling b i =>
        unfold ProcessesRight at hprocess
        rw [hcall] at hprocess
        simp only [hotherItems b hprocess.1]
      | _ => rfl
    rw [hwaiting, ← List.append_assoc, h.items, hstored, List.map_append, List.map_singleton]
  · have hbegun := h.begun
    have hbatch : s.batch ≤ s'.batch := by
      unfold batch
      show _ ≤ match s.process with
        | .idle => 0
        | .handling b i => s'.queueNext b - i
        | _ => s'.queueNext s.activeBuffer
      cases hcall : s.process with
      | handling b i =>
        unfold ProcessesRight at hprocess
        rw [hcall] at hprocess
        simp only [hotherNext b hprocess.1, Nat.le_refl]
      | idle => exact Nat.le_refl _
      | counted b => simp only [hactiveNext]; omega
      | activeLocked b => simp only [hactiveNext]; omega
      | bufferLocked b => simp only [hactiveNext]; omega
    show s.begun ≤ s.handled.length + s'.batch
    omega

/-- The steps of a thread that adds an item. -/
theorem Consistent.storeItem [DecidableEq τ] {s : QueueState τ α} (h : s.Consistent maxEntries)
    {thread : τ} {item : α} {tries : Nat} {b : Fin 2} {version : UInt64}
    (hcall : s.adds thread = .locking item tries b version) (hheld : s.bufferHeld b = false) :
    (s.storeItem maxEntries thread item tries b version).Consistent maxEntries := by
  unfold QueueState.storeItem
  split
  · exact h.setAdd thread nofun
  · next hversion =>
    have hidle : (s.setAdd thread .idle).Consistent maxEntries := h.setAdd thread nofun
    split
    · exact hidle.refused item
    · next hroom =>
      obtain ⟨swaps, hactive⟩ := h.locking thread item tries b version hcall
      have hb := h.active_of_version_eq hactive (not_not.mp hversion) hheld
      subst hb
      exact hidle.store item (Nat.lt_of_not_le hroom)

/-- The active buffer is taken, and the other one gets the items from now on. -/
theorem Consistent.swap {s : QueueState τ α} (h : s.Consistent maxEntries) {b offline : Fin 2}
    (hcall : s.process = .bufferLocked b) (hoffline : offline = if b = 0 then 1 else 0) :
    Consistent maxEntries
      { s with
        process := .handling b 0
        queueVersion := Function.update s.queueVersion offline (s.queueVersion offline + 1)
        activeBufferVersion := s.queueVersion offline + 1
        activeBuffer := offline
        queueNext := Function.update s.queueNext offline 0
        swaps := s.swaps + 1 } := by
  have hb : b = s.activeBuffer := by
    have hprocess := h.process
    unfold ProcessesRight at hprocess
    rwa [hcall] at hprocess
  have hne : b ≠ offline := by
    rw [hoffline]
    split <;> omega
  have hversion : (s.queueVersion offline + 1).toNat =
      (versionSkew offline + (s.swaps + 1)) % 2 ^ 64 := by
    have hold := h.version offline
    rw [hcall, if_neg (fun heq => hne (ProcessCall.bufferLocked.inj heq)), Nat.add_zero] at hold
    rw [UInt64.toNat_add, hold]
    show (_ % 2 ^ 64 + 1) % 2 ^ 64 = _
    omega
  have hparity : offline.val = (s.swaps + 1) % 2 := by
    apply parity_offline hoffline
    rw [hb]
    exact h.active.1
  have htwo : ∀ c : Fin 2, c = offline ∨ c = b := eq_offline_or_eq hoffline
  set s' : QueueState τ α :=
    { s with
      process := .handling b 0
      queueVersion := Function.update s.queueVersion offline (s.queueVersion offline + 1)
      activeBufferVersion := s.queueVersion offline + 1
      activeBuffer := offline
      queueNext := Function.update s.queueNext offline 0
      swaps := s.swaps + 1 } with hs'
  have hofflineNext : s'.queueNext offline = 0 := Function.update_self _ _ _
  have htakenNext : s'.queueNext b = s.queueNext b := Function.update_of_ne hne _ _
  have hofflineVersion : s'.queueVersion offline = s.queueVersion offline + 1 :=
    Function.update_self _ _ _
  have htakenVersion : s'.queueVersion b = s.queueVersion b := Function.update_of_ne hne _ _
  have htakenItems : s'.bufferItems maxEntries b = s.bufferItems maxEntries b :=
    bufferItems_congr htakenNext fun _ _ => rfl
  have hofflineItems : s'.bufferItems maxEntries offline = [] := by
    rw [← List.length_eq_zero_iff, length_bufferItems, hofflineNext]
  refine ⟨⟨hparity, hversion⟩, ?_, h.locking, ⟨hne, Nat.zero_le _⟩, ?_, ?_, ?_, ?_⟩
  · intro c
    have hnotLocked : s'.process ≠ .bufferLocked c := nofun
    rw [if_neg hnotLocked, Nat.add_zero]
    rcases htwo c with rfl | rfl
    · rw [hofflineVersion]
      exact hversion
    · have hold := h.version c
      rw [hcall, if_pos rfl] at hold
      rw [htakenVersion, hold, Nat.add_assoc]
  · intro c hc hidle
    have hcb : c = b := (htwo c).resolve_left hc
    exact absurd (hcb ▸ rfl) (hidle 0)
  · intro c
    rcases htwo c with rfl | rfl
    · rw [hofflineNext]
      exact Nat.zero_le _
    · rw [htakenNext]
      exact h.room c
  · have hbefore : s.waiting maxEntries = s.bufferItems maxEntries b := by
      rw [waiting, hcall, hb, List.nil_append]
    have hafter : s'.waiting maxEntries = s.bufferItems maxEntries b := by
      show (s'.bufferItems maxEntries b).drop 0 ++ s'.bufferItems maxEntries offline = _
      rw [hofflineItems, htakenItems, List.append_nil, List.drop_zero]
    have hitems := h.items
    rw [hbefore] at hitems
    rw [hafter]
    exact hitems
  · have hbegun := h.begun
    have hbefore : s.batch = s.queueNext b := by
      rw [batch, hcall, hb]
    have hafter : s'.batch = s.queueNext b := by
      show s'.queueNext b - 0 = _
      rw [htakenNext, Nat.sub_zero]
    rw [hbefore] at hbegun
    rw [hafter]
    exact hbegun

/-- The buffer was empty, or its items are counted and it is taken next. -/
theorem Consistent.process_call {s : QueueState τ α} (h : s.Consistent maxEntries)
    (hidle : s.process = .idle) :
    Consistent maxEntries
      { s with
        process := if s.queueNext s.activeBuffer = 0 then .idle else .counted s.activeBuffer
        begun := s.stored.length } := by
  have hwaiting : s.waiting maxEntries = s.bufferItems maxEntries s.activeBuffer := by
    rw [waiting, hidle, List.nil_append]
  have hitems := h.items
  rw [hwaiting] at hitems
  have hlength : s.stored.length = s.handled.length + s.queueNext s.activeBuffer := by
    have hlen := congrArg List.length hitems
    rw [List.length_append, length_bufferItems, List.length_map] at hlen
    exact hlen.symm
  have hversion := h.version
  simp only [hidle] at hversion
  have hoffline : ∀ b ≠ s.activeBuffer, s.queueNext b = 0 := by
    intro b hb
    apply h.offline b hb
    rw [hidle]
    exact nofun
  by_cases hempty : s.queueNext s.activeBuffer = 0
  · simp only [if_pos hempty]
    refine ⟨h.active, hversion, h.locking, trivial, fun b hb _ => hoffline b hb, h.room, hitems,
      ?_⟩
    show s.stored.length ≤ s.handled.length + 0
    omega
  · simp only [if_neg hempty]
    refine ⟨h.active, hversion, h.locking, rfl, fun b hb _ => hoffline b hb, h.room, hitems, ?_⟩
    show s.stored.length ≤ s.handled.length + s.queueNext s.activeBuffer
    omega

/-- The locks of the taking thread. -/
theorem Consistent.lockActive {s : QueueState τ α} (h : s.Consistent maxEntries) {b : Fin 2}
    (hcall : s.process = .counted b) :
    Consistent maxEntries { s with process := .activeLocked b } := by
  obtain ⟨hactive, hversion, hlocking, hprocess, hoffline, hroom, hitems, hbegun⟩ := h
  simp only [ProcessesRight, waiting, batch, hcall] at hversion hprocess hoffline hitems hbegun
  exact ⟨hactive, hversion, hlocking, hprocess, fun c hc _ => hoffline c hc nofun, hroom, hitems,
    hbegun⟩

theorem Consistent.lockBuffer {s : QueueState τ α} (h : s.Consistent maxEntries) {b : Fin 2}
    (hcall : s.process = .activeLocked b) :
    Consistent maxEntries
      { s with
        process := .bufferLocked b
        queueVersion := Function.update s.queueVersion b (s.queueVersion b + 1) } := by
  obtain ⟨hactive, hversion, hlocking, hprocess, hoffline, hroom, hitems, hbegun⟩ := h
  simp only [ProcessesRight, waiting, batch, hcall] at hversion hprocess hoffline hitems hbegun
  refine ⟨hactive, ?_, hlocking, hprocess, fun c hc _ => hoffline c hc nofun, hroom, hitems,
    hbegun⟩
  intro c
  have hold := hversion c
  rw [if_neg nofun, Nat.add_zero] at hold
  show (Function.update s.queueVersion b (s.queueVersion b + 1) c).toNat =
    (versionSkew c + s.swaps +
      if ProcessCall.bufferLocked b = .bufferLocked c then 1 else 0) % 2 ^ 64
  by_cases hc : c = b
  · subst hc
    rw [Function.update_self, if_pos rfl, UInt64.toNat_add, hold]
    show (_ % 2 ^ 64 + 1) % 2 ^ 64 = _
    omega
  · rw [Function.update_of_ne hc, if_neg fun heq => hc (ProcessCall.bufferLocked.inj heq).symm,
      hold,
      Nat.add_zero]

/-- One item is handled. -/
theorem Consistent.handle {s : QueueState τ α} (h : s.Consistent maxEntries) {b : Fin 2} {i : Nat}
    (hcall : s.process = .handling b i) (hi : i < s.queueNext b) :
    Consistent maxEntries
      { s with
        process := .handling b (i + 1)
        handled := s.handled ++ [s.mem (place maxEntries b i)] } := by
  obtain ⟨hactive, hversion, hlocking, hprocess, hoffline, hroom, hitems, hbegun⟩ := h
  simp only [ProcessesRight, waiting, batch, hcall] at hversion hprocess hoffline hitems hbegun
  refine ⟨hactive, fun c => (hversion c).trans (by simp), hlocking, ⟨hprocess.1, hi⟩, ?_,
    hroom, ?_, ?_⟩
  · intro c hc hnot
    apply hoffline c hc
    intro j hj
    exact hnot (i + 1) (by rw [(ProcessCall.handling.inj hj).1])
  · have hlength : i < (s.bufferItems maxEntries b).length := by rwa [length_bufferItems]
    have hnext : (s.bufferItems maxEntries b)[i] = s.mem (place maxEntries b i) := by
      simp only [bufferItems, List.getElem_map, List.getElem_range]
    rw [List.drop_eq_getElem_cons hlength, hnext] at hitems
    show (s.handled ++ [s.mem (place maxEntries b i)]) ++
      ((s.bufferItems maxEntries b).drop (i + 1) ++ s.bufferItems maxEntries s.activeBuffer) =
        s.stored.map some
    rw [← hitems]
    simp
  · show s.begun ≤ (s.handled ++ [_]).length + (s.queueNext b - (i + 1))
    rw [List.length_append, List.length_singleton]
    omega

/-- The buffer is empty and unlocked. -/
theorem Consistent.processEnd {s : QueueState τ α} (h : s.Consistent maxEntries) {b : Fin 2}
    {i : Nat} (hcall : s.process = .handling b i) (hi : ¬ i < s.queueNext b) :
    Consistent maxEntries
      { s with process := .idle, queueNext := Function.update s.queueNext b 0 } := by
  obtain ⟨hactive, hversion, hlocking, hprocess, hoffline, hroom, hitems, hbegun⟩ := h
  simp only [ProcessesRight, waiting, batch, hcall] at hversion hprocess hoffline hitems hbegun
  obtain ⟨hne, hle⟩ := hprocess
  have hdone : i = s.queueNext b := Nat.le_antisymm hle (Nat.le_of_not_lt hi)
  have hkept : Function.update s.queueNext b 0 s.activeBuffer = s.queueNext s.activeBuffer :=
    Function.update_of_ne hne.symm _ _
  refine ⟨hactive, fun c => (hversion c).trans (by simp), hlocking, trivial, ?_, ?_, ?_, ?_⟩
  · intro c hc _
    have hcb : c = b := by
      have hc' : c ≠ s.activeBuffer := hc
      omega
    show Function.update s.queueNext b 0 c = 0
    rw [hcb, Function.update_self]
  · intro c
    show Function.update s.queueNext b 0 c ≤ maxEntries
    by_cases hcb : c = b
    · rw [hcb, Function.update_self]
      exact Nat.zero_le _
    · rw [Function.update_of_ne hcb]
      exact hroom c
  · have hempty : (s.bufferItems maxEntries b).drop i = [] := by
      rw [List.drop_eq_nil_iff, length_bufferItems]
      omega
    have hactiveItems : ({ s with
        process := .idle
        queueNext := Function.update s.queueNext b 0 } : QueueState τ α).bufferItems maxEntries
          s.activeBuffer = s.bufferItems maxEntries s.activeBuffer :=
      bufferItems_congr hkept fun _ _ => rfl
    rw [hempty, List.nil_append] at hitems
    show s.handled ++ ([] ++ _) = s.stored.map some
    rw [List.nil_append, ← hitems]
    exact congrArg _ hactiveItems
  · show s.begun ≤ s.handled.length + 0
    omega

theorem Consistent.step [DecidableEq τ] {s s' : QueueState τ α} (h : s.Consistent maxEntries)
    {event : QueueEvent τ α} (hstep : s.step maxEntries event = some s') :
    s'.Consistent maxEntries := by
  cases event with
  | call thread item =>
    simp only [QueueState.step] at hstep
    split at hstep
    · rw [← Option.some.inj hstep]
      exact h.setAdd thread nofun
    · cases hstep
  | look thread =>
    simp only [QueueState.step] at hstep
    split at hstep
    · split at hstep
      · rw [← Option.some.inj hstep]
        apply h.setAdd thread
        intro item tries b version hcall
        cases hcall
        exact ⟨s.swaps, h.active⟩
      · cases hstep
    · cases hstep
  | store thread =>
    simp only [QueueState.step] at hstep
    split at hstep
    · next hcall =>
      split at hstep
      · cases hstep
      · next hheld =>
        rw [← Option.some.inj hstep]
        exact h.storeItem hcall (Bool.eq_false_iff.mpr hheld)
    · cases hstep
  | giveUp thread =>
    simp only [QueueState.step] at hstep
    split at hstep
    · next item tries hcall =>
      split at hstep
      · cases hstep
      · rw [← Option.some.inj hstep]
        have hidle : (s.setAdd thread .idle).Consistent maxEntries := h.setAdd thread nofun
        exact hidle.refused item
    · cases hstep
  | process =>
    simp only [QueueState.step] at hstep
    split at hstep
    · next hidle =>
      rw [← Option.some.inj hstep]
      exact h.process_call hidle
    · cases hstep
  | lockActive =>
    simp only [QueueState.step] at hstep
    split at hstep
    · next hcall =>
      rw [← Option.some.inj hstep]
      exact h.lockActive hcall
    · cases hstep
  | lockBuffer =>
    simp only [QueueState.step] at hstep
    split at hstep
    · next hcall =>
      rw [← Option.some.inj hstep]
      exact h.lockBuffer hcall
    · cases hstep
  | swap =>
    simp only [QueueState.step] at hstep
    split at hstep
    · next hcall =>
      rw [← Option.some.inj hstep]
      exact h.swap hcall rfl
    · cases hstep
  | handle =>
    simp only [QueueState.step] at hstep
    split at hstep
    · next hcall =>
      split at hstep
      · next hi =>
        rw [← Option.some.inj hstep]
        exact h.handle hcall hi
      · cases hstep
    · cases hstep
  | processEnd =>
    simp only [QueueState.step] at hstep
    split at hstep
    · next hcall =>
      split at hstep
      · cases hstep
      · next hi =>
        rw [← Option.some.inj hstep]
        exact h.processEnd hcall hi
    · cases hstep

end QueueState

/-- The queue as `datum_queue_prep` leaves it. -/
def QueueState.Prepared (s : QueueState τ α) : Prop := s = QueueState.prep

theorem QueueState.Prepared.consistent {s : QueueState τ α} (h : s.Prepared) (maxEntries : Nat) :
    s.Consistent maxEntries := by
  cases h
  refine ⟨⟨rfl, rfl⟩, ?_, nofun, trivial, fun _ _ _ => rfl, fun _ => Nat.zero_le _, rfl,
    Nat.le_refl _⟩
  intro b
  have hb : b = 0 ∨ b = 1 := by omega
  rcases hb with rfl | rfl <;> rfl

section Runs

variable [DecidableEq τ] {maxEntries : Nat} {s : QueueState τ α}

theorem consistent_of_reachable
    (hrun : (queueSystem τ α maxEntries).Reachable QueueState.Prepared s) :
    s.Consistent maxEntries :=
  hrun.invariant (fun _ hstart => hstart.consistent maxEntries)
    fun _ _ _ h _ hstep => h.step hstep

/-- The thread that takes items out goes on alone. -/
abbrev ProcessesTo (maxEntries : Nat) (s : QueueState τ α) : QueueState τ α → Prop :=
  (queueSystem τ α maxEntries).ReachedBy (fun _ event => event.OfProcess) (· = s)

theorem takes_step {s' : QueueState τ α} {event : QueueEvent τ α} (hof : event.OfProcess)
    (hstep : (queueSystem τ α maxEntries).step s event = some s') : ProcessesTo maxEntries s s' :=
  System.ReachedBy.single hof hstep

theorem ProcessesTo.consistent {s' : QueueState τ α} (hs : s.Consistent maxEntries)
    (h : ProcessesTo maxEntries s s') : s'.Consistent maxEntries :=
  h.invariant (fun _ heq => heq ▸ hs) fun _ _ _ hcons _ hstep => hcons.step hstep

variable (maxEntries) in
/-- A buffer that is taken is handled to its end, and the call returns. -/
theorem exists_handled {b : Fin 2} {i : Nat} (hcall : s.process = .handling b i)
    (hi : i ≤ s.queueNext b) (hne : b ≠ s.activeBuffer) :
    ∃ s', ProcessesTo maxEntries s s' ∧ s'.process = .idle ∧ s'.returned = s.returned ∧
      s'.activeBuffer = s.activeBuffer ∧
      s'.queueNext s.activeBuffer = s.queueNext s.activeBuffer := by
  generalize hrest : s.queueNext b - i = rest
  induction rest generalizing s i with
  | zero =>
    have hdone : ¬ i < s.queueNext b := by omega
    have hstep : (queueSystem τ α maxEntries).step s .processEnd =
        some { s with process := .idle, queueNext := Function.update s.queueNext b 0 } := by
      simp only [queueSystem, QueueState.step, hcall, if_neg hdone]
    exact ⟨_, takes_step (show QueueEvent.OfProcess .processEnd from trivial) hstep, rfl, rfl,
      rfl,
      Function.update_of_ne hne.symm _ _⟩
  | succ rest ih =>
    have hlt : i < s.queueNext b := by omega
    set mid : QueueState τ α :=
      { s with
        process := .handling b (i + 1)
        handled := s.handled ++ [s.mem (QueueState.place maxEntries b i)] } with hmid
    have hstep : (queueSystem τ α maxEntries).step s .handle = some mid := by
      simp only [queueSystem, QueueState.step, hcall, if_pos hlt, hmid]
    have hfirst := takes_step (show QueueEvent.OfProcess .handle from trivial) hstep
    have hcallMid : mid.process = .handling b (i + 1) := rfl
    have hrestMid : mid.queueNext b - (i + 1) = rest := by
      show s.queueNext b - (i + 1) = rest
      omega
    obtain ⟨s', hto, hidle, hreturned, hactive, hnext⟩ := ih hcallMid hlt hne hrestMid
    exact ⟨s', hfirst.trans hto, hidle, hreturned, hactive, hnext⟩

variable (maxEntries) in
/-- From the last lock on: the call goes on to its end and leaves the other buffer active
    and empty. -/
theorem exists_drained_of_bufferLocked {b : Fin 2} (hcall : s.process = .bufferLocked b) :
    ∃ s', ProcessesTo maxEntries s s' ∧ s'.process = .idle ∧ s'.returned = s.returned ∧
      s'.queueNext s'.activeBuffer = 0 := by
  have hne : b ≠ if b = 0 then 1 else 0 := by
    split <;> omega
  generalize hoffline : (if b = 0 then 1 else 0 : Fin 2) = offline at hne
  set mid : QueueState τ α :=
    { s with
      process := .handling b 0
      queueVersion := Function.update s.queueVersion offline (s.queueVersion offline + 1)
      activeBufferVersion := s.queueVersion offline + 1
      activeBuffer := offline
      queueNext := Function.update s.queueNext offline 0
      swaps := s.swaps + 1 } with hmid
  have hstep : (queueSystem τ α maxEntries).step s .swap = some mid := by
    simp only [queueSystem, QueueState.step, hcall, hoffline, hmid]
  have hfirst := takes_step (show QueueEvent.OfProcess .swap from trivial) hstep
  have hcallMid : mid.process = .handling b 0 := rfl
  obtain ⟨s', hto, hidle, hreturned, hactive, hnext⟩ :=
    exists_handled maxEntries hcallMid (Nat.zero_le _) hne
  refine ⟨s', hfirst.trans hto, hidle, hreturned, ?_⟩
  rw [hactive]
  exact hnext.trans (Function.update_self _ _ _)

variable (maxEntries) in
theorem exists_drained_of_activeLocked {b : Fin 2} (hcall : s.process = .activeLocked b) :
    ∃ s', ProcessesTo maxEntries s s' ∧ s'.process = .idle ∧ s'.returned = s.returned ∧
      s'.queueNext s'.activeBuffer = 0 := by
  set mid : QueueState τ α :=
    { s with
      process := .bufferLocked b
      queueVersion := Function.update s.queueVersion b (s.queueVersion b + 1) } with hmid
  have hstep : (queueSystem τ α maxEntries).step s .lockBuffer = some mid := by
    simp only [queueSystem, QueueState.step, hcall, hmid]
  have hfirst := takes_step (show QueueEvent.OfProcess .lockBuffer from trivial) hstep
  have hcallMid : mid.process = .bufferLocked b := rfl
  obtain ⟨s', hto, hrest⟩ := exists_drained_of_bufferLocked maxEntries hcallMid
  exact ⟨s', hfirst.trans hto, hrest⟩

variable (maxEntries) in
theorem exists_drained_of_counted {b : Fin 2} (hcall : s.process = .counted b) :
    ∃ s', ProcessesTo maxEntries s s' ∧ s'.process = .idle ∧ s'.returned = s.returned ∧
      s'.queueNext s'.activeBuffer = 0 := by
  set mid : QueueState τ α := { s with process := .activeLocked b } with hmid
  have hstep : (queueSystem τ α maxEntries).step s .lockActive = some mid := by
    simp only [queueSystem, QueueState.step, hcall, hmid]
  have hfirst := takes_step (show QueueEvent.OfProcess .lockActive from trivial) hstep
  have hcallMid : mid.process = .activeLocked b := rfl
  obtain ⟨s', hto, hrest⟩ := exists_drained_of_activeLocked maxEntries hcallMid
  exact ⟨s', hfirst.trans hto, hrest⟩

variable (maxEntries) in
/-- A call of `datum_queue_process` takes what is there. -/
theorem exists_drained_of_idle (hidle : s.process = .idle) :
    ∃ s', ProcessesTo maxEntries s s' ∧ s'.process = .idle ∧ s'.returned = s.returned ∧
      s'.queueNext s'.activeBuffer = 0 := by
  by_cases hempty : s.queueNext s.activeBuffer = 0
  · exact ⟨s, .start rfl, hidle, rfl, hempty⟩
  · set mid : QueueState τ α :=
      { s with process := .counted s.activeBuffer, begun := s.stored.length } with hmid
    have hstep : (queueSystem τ α maxEntries).step s .process = some mid := by
      simp only [queueSystem, QueueState.step, if_pos hidle, if_neg hempty, hmid]
    have hfirst := takes_step (show QueueEvent.OfProcess .process from trivial) hstep
    have hcallMid : mid.process = .counted s.activeBuffer := rfl
    obtain ⟨s', hto, hrest⟩ := exists_drained_of_counted maxEntries hcallMid
    exact ⟨s', hfirst.trans hto, hrest⟩

/-- Whatever the taking thread is doing, it can empty both buffers. -/
theorem QueueState.Consistent.exists_drained (h : s.Consistent maxEntries) :
    ∃ s', ProcessesTo maxEntries s s' ∧ s'.process = .idle ∧ s'.returned = s.returned ∧
      s'.queueNext s'.activeBuffer = 0 := by
  have hprocess := h.process
  unfold QueueState.ProcessesRight at hprocess
  cases hcall : s.process with
  | idle => exact exists_drained_of_idle maxEntries hcall
  | counted b => exact exists_drained_of_counted maxEntries hcall
  | activeLocked b => exact exists_drained_of_activeLocked maxEntries hcall
  | bufferLocked b => exact exists_drained_of_bufferLocked maxEntries hcall
  | handling b i =>
    rw [hcall] at hprocess
    obtain ⟨mid, hmid, hidle, hreturned, -⟩ :=
      exists_handled maxEntries hcall hprocess.2 hprocess.1
    obtain ⟨s', hto, hidle', hreturned', hempty⟩ := exists_drained_of_idle maxEntries hidle
    exact ⟨s', hmid.trans hto, hidle', hreturned'.trans hreturned, hempty⟩

/-- What the queue promises about the items of the calls that returned 0. -/
structure QueueState.DeliversOnce (maxEntries : Nat) (s : QueueState τ α) : Prop where
  /-- in order, each once, as it was stored, and nothing else -/
  handled_prefix : s.handled <+: s.stored.map some
  /-- all that were in when a call of `datum_queue_process` began that has returned -/
  begun_handled : s.process = .idle → (s.stored.take s.begun).map some <+: s.handled
  /-- no thread that adds items has to move for all of them to be handled -/
  exists_handled_all : ∃ s', ProcessesTo maxEntries s s' ∧ s'.process = .idle ∧
    s'.returned = s.returned ∧ s'.handled = s.stored.map some

/-- Every item that was accepted is handled once and in order, in every run. -/
theorem deliversOnce_of_reachable
    (hrun : (queueSystem τ α maxEntries).Reachable QueueState.Prepared s) :
    s.DeliversOnce maxEntries := by
  have h := consistent_of_reachable hrun
  have hstarts : s.handled <+: s.stored.map some := ⟨_, h.items⟩
  refine ⟨hstarts, ?_, ?_⟩
  · intro hidle
    have hbegun := h.begun
    have hbatch : s.batch = 0 := by
      rw [QueueState.batch, hidle]
    rw [List.map_take]
    apply List.prefix_of_prefix_length_le (List.take_prefix _ _) hstarts
    rw [List.length_take]
    omega
  · obtain ⟨s', hto, hidle, hreturned, hempty⟩ := h.exists_drained
    have hitems := (ProcessesTo.consistent h hto).items
    have hnothing : s'.bufferItems maxEntries s'.activeBuffer = [] := by
      rw [← List.length_eq_zero_iff, QueueState.length_bufferItems, hempty]
    rw [QueueState.waiting, hidle, hnothing, List.append_nil, List.append_nil] at hitems
    refine ⟨s', hto, hidle, hreturned, ?_⟩
    rw [hitems, QueueState.stored, QueueState.stored, hreturned]

end Runs

/-- Two threads add an item each, the second after the buffers were swapped between its
    look and its lock. -/
theorem exists_deliversOnce : ∃ s : QueueState Bool Nat,
    (queueSystem Bool Nat 1).Reachable QueueState.Prepared s ∧ s.handled = [some 5, some 6] ∧
      s.DeliversOnce 1 := by
  obtain ⟨s, hrun, hhandled⟩ := System.exists_reachedBy_of_replay (queueSystem Bool Nat 1)
    (show QueueState.Prepared QueueState.prep from rfl) (fun _ _ => true)
    [.call false 5, .look false, .call true 6, .look true, .store false, .process, .lockActive,
      .lockBuffer, .swap, .handle, .processEnd, .store true, .look true, .store true, .process,
      .lockActive, .lockBuffer, .swap, .handle, .processEnd]
    (fun s => s.handled = [some 5, some 6]) (fun _ _ _ => trivial) (by decide +kernel)
  exact ⟨s, hrun, of_decide_eq_true hhandled, deliversOnce_of_reachable hrun⟩

end ChirpGateway
