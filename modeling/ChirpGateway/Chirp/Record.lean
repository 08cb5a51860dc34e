import ChirpGateway.Chirp.Registry
import ChirpGateway.Lib.Window

/-!
# Recording shares in the registry

`find_or_add`, `chirp_record_share`, `chirp_member_stats` and
`chirp_payout_address` (`datum_chirp.c:14-53` and `85-88`, `164-170`), where every
allocation succeeds. The pointer `find_or_add` returns is the index of the
member.
-/

namespace ChirpGateway

open Bytes

/-- `CHIRP_ACTIVE_GAP_CAP`. -/
def chirpActiveGapCap : Nat := 3600

/-- `strncmp(a, b, n) == 0`. -/
def strncmpEq (a b : List UInt8) (n : Nat) : Bool :=
  (Buffer.cString a).take n == (Buffer.cString b).take n

/-- A member as `find_or_add` adds it. -/
def ChirpMiner.fresh (addr : List UInt8) (now : UInt64) : ChirpMiner where
  addr := .copy addr
  firstSeen := now
  lastSeen := 0
  activeSecs := 0
  shares := []

/-- `find_or_add`. -/
def findOrAdd (registry : List ChirpMiner) (addr : List UInt8) (now : UInt64) :
    List ChirpMiner × Nat :=
  match registry.findIdx? fun m => strncmpEq m.addr.bytes addr (chirpAddrMax - 1) with
  | some i => (registry, i)
  | none => (registry ++ [.fresh addr now], registry.length)

/-- What `chirp_record_share` does to the member it found. Only a gap below the
    cap counts as active time. -/
def ChirpMiner.record (m : ChirpMiner) (work : Rat) (now : UInt64) : ChirpMiner :=
  let gap := now.toNat - m.lastSeen.toNat
  { m with
    activeSecs :=
      if m.lastSeen ≠ 0 ∧ gap < chirpActiveGapCap then m.activeSecs + gap else m.activeSecs
    lastSeen := now
    shares := m.shares ++ [{ ts := now, work }] }

/-- `chirp_record_share`. -/
def chirpRecordShare (registry : List ChirpMiner) (addr : List UInt8) (work : Rat)
    (now : UInt64) : List ChirpMiner :=
  let (registry, i) := findOrAdd registry addr now
  registry.modify i fun m => m.record work now

/-- `chirp_member_stats`: the member as it is left behind, and the two results
    whose pointers are not `NULL`. -/
def chirpMemberStats (m : ChirpMiner) (now : UInt64) (days power : Bool) :
    ChirpMiner × Option Rat × Option Rat :=
  let daysOut := if days then some (m.activeSecs / 86400) else none
  if power then
    ((windowWork m now).1, daysOut, some (windowWork m now).2)
  else
    (m, daysOut, none)

/-- `chirp_payout_address` into a buffer of `outsz` bytes. -/
def chirpPayoutAddress (userIdentity : List UInt8) (outsz : Nat) : List UInt8 :=
  let s := Buffer.cString userIdentity
  let s := if (ascii "sri.lotto.").isPrefixOf s then s.drop 10 else s
  (s.takeWhile (· ≠ 46)).take (outsz - 1)

/-! ## Which member a share goes to -/

@[simp] theorem ChirpMiner.fresh_addr (addr : List UInt8) (now : UInt64) :
    (ChirpMiner.fresh addr now).addr = .copy addr := rfl

@[simp] theorem ChirpMiner.fresh_shares (addr : List UInt8) (now : UInt64) :
    (ChirpMiner.fresh addr now).shares = [] := rfl

@[simp] theorem ChirpMiner.record_addr (m : ChirpMiner) (work : Rat) (now : UInt64) :
    (m.record work now).addr = m.addr := rfl

@[simp] theorem ChirpMiner.record_firstSeen (m : ChirpMiner) (work : Rat) (now : UInt64) :
    (m.record work now).firstSeen = m.firstSeen := rfl

@[simp] theorem ChirpMiner.record_shares (m : ChirpMiner) (work : Rat) (now : UInt64) :
    (m.record work now).shares = m.shares ++ [{ ts := now, work }] := rfl

@[simp] theorem windowWork_addr (m : ChirpMiner) (now : UInt64) :
    (windowWork m now).1.addr = m.addr := rfl

/-- The time of a share, as the window compares it. -/
def ChirpShare.stamp (share : ChirpShare) : Nat := share.ts.toNat

@[simp] theorem windowWork_shares (m : ChirpMiner) (now : UInt64) :
    (windowWork m now).1.shares = Window.since ChirpShare.stamp (windowCutoff now) m.shares :=
  List.filter_congr fun _ _ => decide_eq_decide.mpr Iff.rfl

theorem windowWork_snd (m : ChirpMiner) (now : UInt64) :
    (windowWork m now).2 =
      ((Window.since ChirpShare.stamp (windowCutoff now) m.shares).map ChirpShare.work).sum := by
  rw [← windowWork_shares]
  rfl

/-- The comparison of `find_or_add` is equality of the stored addresses. -/
theorem strncmpEq_iff (addr : ChirpAddr) (text : List UInt8) :
    strncmpEq addr.bytes text (chirpAddrMax - 1) = true ↔ addr = .copy text := by
  obtain ⟨bytes, noNul, fits⟩ := addr
  have htake : bytes.take (chirpAddrMax - 1) = bytes :=
    List.take_of_length_le (Nat.le_sub_one_of_lt fits)
  rw [strncmpEq, beq_iff_eq, Buffer.cString_eq_self noNul, htake, ChirpAddr.copy,
    ChirpAddr.mk.injEq]

section Step

variable (addr : List UInt8) (work : Rat) (now : UInt64)

@[simp] theorem chirpRecordShare_nil :
    chirpRecordShare [] addr work now = [(ChirpMiner.fresh addr now).record work now] := rfl

/-- The share goes to the first member of that address, and to a new one at the
    end if there is none. -/
theorem chirpRecordShare_cons (m : ChirpMiner) (registry : List ChirpMiner) :
    chirpRecordShare (m :: registry) addr work now =
      if m.addr = .copy addr then
        m.record work now :: registry
      else
        m :: chirpRecordShare registry addr work now := by
  simp only [chirpRecordShare, findOrAdd, List.findIdx?_cons]
  by_cases hsame : m.addr = .copy addr
  · rw [if_pos hsame, if_pos ((strncmpEq_iff m.addr addr).mpr hsame)]
    rfl
  · have hdiff : ¬ strncmpEq m.addr.bytes addr (chirpAddrMax - 1) = true :=
      fun heq => hsame ((strncmpEq_iff m.addr addr).mp heq)
    rw [if_neg hsame, if_neg hdiff]
    cases registry.findIdx? fun m => strncmpEq m.addr.bytes addr (chirpAddrMax - 1) with
    | none => rfl
    | some i => rfl

/-- The addresses stay as they are, or the new one is put behind them. -/
theorem chirpRecordShare_addrs (registry : List ChirpMiner) :
    (chirpRecordShare registry addr work now).map ChirpMiner.addr =
      if ChirpAddr.copy addr ∈ registry.map ChirpMiner.addr then
        registry.map ChirpMiner.addr
      else
        registry.map ChirpMiner.addr ++ [.copy addr] := by
  induction registry with
  | nil => rfl
  | cons m registry ih =>
    rw [chirpRecordShare_cons]
    by_cases hsame : m.addr = .copy addr
    · simp [hsame]
    · have hmem : ChirpAddr.copy addr ∈ (m :: registry).map ChirpMiner.addr ↔
          ChirpAddr.copy addr ∈ registry.map ChirpMiner.addr := by
        rw [List.map_cons, List.mem_cons, or_iff_right fun h => hsame h.symm]
      rw [if_neg hsame, List.map_cons, ih]
      simp only [hmem]
      split <;> rfl

theorem mem_addrs_chirpRecordShare (registry : List ChirpMiner) (other : ChirpAddr) :
    other ∈ (chirpRecordShare registry addr work now).map ChirpMiner.addr ↔
      other ∈ registry.map ChirpMiner.addr ∨ other = .copy addr := by
  rw [chirpRecordShare_addrs]
  split
  · next hmem =>
    constructor
    · exact .inl
    · rintro (hother | rfl)
      · exact hother
      · exact hmem
  · rw [List.mem_append, List.mem_singleton]

theorem chirpRecordShare_nodup {registry : List ChirpMiner}
    (hnodup : (registry.map ChirpMiner.addr).Nodup) :
    ((chirpRecordShare registry addr work now).map ChirpMiner.addr).Nodup := by
  rw [chirpRecordShare_addrs]
  split
  · exact hnodup
  · next hfresh =>
    rw [List.nodup_append]
    refine ⟨hnodup, List.nodup_singleton _, ?_⟩
    rintro a ha b hb rfl
    exact hfresh (List.mem_singleton.mp hb ▸ ha)

/-- Where no address occurs twice, a member is one the share did not go to, the
    one it went to, or the new one. -/
theorem mem_chirpRecordShare {registry : List ChirpMiner}
    (hnodup : (registry.map ChirpMiner.addr).Nodup) {m : ChirpMiner}
    (hm : m ∈ chirpRecordShare registry addr work now) :
    (m ∈ registry ∧ m.addr ≠ .copy addr) ∨
    (∃ old ∈ registry, old.addr = .copy addr ∧ m = old.record work now) ∨
    (ChirpAddr.copy addr ∉ registry.map ChirpMiner.addr ∧
      m = (ChirpMiner.fresh addr now).record work now) := by
  induction registry with
  | nil => exact .inr (.inr ⟨List.not_mem_nil, List.mem_singleton.mp hm⟩)
  | cons head registry ih =>
    rw [List.map_cons, List.nodup_cons] at hnodup
    rw [chirpRecordShare_cons] at hm
    by_cases hsame : head.addr = .copy addr
    · rw [if_pos hsame] at hm
      rcases List.mem_cons.mp hm with rfl | hrest
      · exact .inr (.inl ⟨head, List.mem_cons_self, hsame, rfl⟩)
      · refine .inl ⟨List.mem_cons_of_mem _ hrest, ?_⟩
        intro heq
        exact hnodup.1 (hsame ▸ heq ▸ List.mem_map_of_mem hrest)
    · rw [if_neg hsame] at hm
      rcases List.mem_cons.mp hm with rfl | hrest
      · exact .inl ⟨List.mem_cons_self, hsame⟩
      · rcases ih hnodup.2 hrest with
          ⟨hmem, hne⟩ | ⟨old, hold, haddr, rfl⟩ | ⟨hfresh, rfl⟩
        · exact .inl ⟨List.mem_cons_of_mem _ hmem, hne⟩
        · exact .inr (.inl ⟨old, List.mem_cons_of_mem _ hold, haddr, rfl⟩)
        · refine .inr (.inr ⟨?_, rfl⟩)
          rw [List.map_cons, List.mem_cons, not_or]
          exact ⟨fun heq => hsame heq.symm, hfresh⟩

end Step

end ChirpGateway
