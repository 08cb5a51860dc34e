import ChirpGateway.Chirp.RegistryRun
import ChirpGateway.Lib.Coverage

/-!
# Tenure

`active_secs` adds up the gaps between the shares of an address
(`datum_chirp.c:40-53`). The time of a share is read before the registry is locked
(`datum_chirp_glue.c:102-111`), so shares may come in any order, and a share that is
late moves `last_seen` back: the next gap is then measured from there again.
-/

namespace ChirpGateway

/-- The member of an address, as `find_or_add` finds it. -/
def memberOf (registry : List ChirpMiner) (addr : ChirpAddr) : Option ChirpMiner :=
  registry.find? fun m => m.addr = addr

/-- `active_secs` of an address after a run. -/
def activeSecsOf (calls : List RegistryCall) (addr : ChirpAddr) : Rat :=
  ((memberOf (RegistryCall.run calls) addr).map ChirpMiner.activeSecs).getD 0

/-- The times recorded for an address, in the order of the calls. -/
def recordedTimes (calls : List RegistryCall) (addr : ChirpAddr) : List Nat :=
  (recordedShares calls addr).map ChirpShare.stamp

/-- Along a run, what an address has been active for is within the time between its
    earliest and its latest share, and never less than before. -/
structure TenureBounded (calls : List RegistryCall) (addr : ChirpAddr) : Prop where
  bounded : ∀ reached, reached <+: calls →
    activeSecsOf reached addr ≤ (Coverage.span (recordedTimes reached addr) : Rat)
  mono : ∀ earlier later, earlier <+: later → later <+: calls →
    activeSecsOf earlier addr ≤ activeSecsOf later addr

/-- Whether `chirp_record_share` counts the gap between two shares. -/
def countsGap (last now : Nat) : Bool := last ≠ 0 && now - last < chirpActiveGapCap

/-- No second is in two of the gaps that count for an address. -/
def CountsOnce (calls : List RegistryCall) (addr : ChirpAddr) : Prop :=
  (Coverage.gaps countsGap (recordedTimes calls addr)).Pairwise Disjoint

/-! ## The member of an address -/

section Member

variable (registry : List ChirpMiner) (addr : ChirpAddr)

theorem memberOf_cons (m : ChirpMiner) :
    memberOf (m :: registry) addr = if m.addr = addr then some m else memberOf registry addr := by
  by_cases haddr : m.addr = addr
  · simp [memberOf, haddr]
  · simp [memberOf, haddr]

theorem memberOf_chirpRecordShare (text : List UInt8) (work : Rat) (now : UInt64) :
    memberOf (chirpRecordShare registry text work now) addr =
      if addr = .copy text then
        some (((memberOf registry addr).getD (.fresh text now)).record work now)
      else memberOf registry addr := by
  induction registry with
  | nil =>
    rw [chirpRecordShare_nil, memberOf_cons]
    by_cases haddr : addr = .copy text
    · simp [memberOf, haddr]
    · simp [memberOf, haddr, Ne.symm haddr]
  | cons m registry ih =>
    rw [chirpRecordShare_cons, memberOf_cons]
    by_cases hsame : m.addr = .copy text
    · rw [if_pos hsame, memberOf_cons, ChirpMiner.record_addr]
      by_cases haddr : addr = .copy text
      · simp [hsame, haddr]
      · simp [hsame, haddr, Ne.symm haddr]
    · rw [if_neg hsame, memberOf_cons, ih]
      by_cases hfound : m.addr = addr
      · rw [if_pos hfound, if_pos hfound, if_neg (hfound ▸ hsame)]
      · rw [if_neg hfound, if_neg hfound]

/-- What a read of the registry leaves alone. -/
def ChirpMiner.age (m : ChirpMiner) : ChirpAddr × UInt64 × Rat :=
  (m.addr, m.lastSeen, m.activeSecs)

theorem map_age_memberOf :
    (memberOf registry addr).map ChirpMiner.age =
      (registry.map ChirpMiner.age).find? fun age => age.1 = addr := by
  rw [List.find?_map]
  rfl

/-- A call that records nothing prunes shares and nothing else. -/
theorem map_age_apply {call : RegistryCall} (hread : call.recorded = none) :
    (call.apply registry).map ChirpMiner.age = registry.map ChirpMiner.age := by
  cases call with
  | recordShare text work now => cases hread
  | candidates env now =>
    show (registry.map _).map _ = _
    rw [List.map_map]
    rfl
  | memberStats i days power now =>
    have hkept (m : ChirpMiner) : (chirpMemberStats m now days power).1.age = m.age := by
      cases power with
      | true => rfl
      | false => rfl
    apply List.ext_getElem?
    intro j
    show ((registry.modify i _).map _)[j]? = _
    rw [List.getElem?_map, List.getElem?_modify, List.getElem?_map]
    by_cases hij : i = j
    · simp [hij, Function.comp_def, hkept]
    · simp [hij]

end Member

/-! ## What is counted -/

section Run

variable {calls : List RegistryCall} {addr : ChirpAddr}

/-- A member against the times recorded for it. -/
structure Aged (times : List Nat) (m : ChirpMiner) : Prop where
  lastSeen : times.getLast? = some m.lastSeen.toNat
  activeSecs : m.activeSecs = ((Coverage.gaps countsGap times).map Finset.card).sum

/-- The first share of an address starts its clock. -/
theorem aged_fresh (text : List UInt8) (work : Rat) (now : UInt64) :
    Aged [now.toNat] ((ChirpMiner.fresh text now).record work now) :=
  ⟨rfl, rfl⟩

/-- Every later one adds the gap to the one before it, where that counts. -/
theorem Aged.record {times : List Nat} {m : ChirpMiner} (h : Aged times m) (work : Rat)
    (now : UInt64) : Aged (times ++ [now.toNat]) (m.record work now) := by
  obtain ⟨hlast, hactive⟩ := h
  obtain ⟨front, rfl⟩ := List.getLast?_eq_some_iff.mp hlast
  constructor
  · rw [List.getLast?_append, List.getLast?_singleton]
    rfl
  · have hcounts : (m.lastSeen ≠ 0 ∧ now.toNat - m.lastSeen.toNat < chirpActiveGapCap) ↔
        countsGap m.lastSeen.toNat now.toNat = true := by
      have hzero : m.lastSeen = 0 ↔ m.lastSeen.toNat = 0 := UInt64.toNat_inj.symm
      simp [countsGap, hzero]
    rw [List.append_assoc, List.singleton_append, Coverage.gaps_append, List.map_append,
      List.sum_append, List.map_singleton, List.sum_singleton, Coverage.card_gap, Nat.cast_add,
      ← hactive]
    show (if _ then _ else _) = _
    simp only [hcounts]
    split_ifs
    · rfl
    · rw [Nat.cast_zero, add_zero]

theorem Aged.of_age {times : List Nat} {m m' : ChirpMiner} (h : Aged times m)
    (hage : m'.age = m.age) : Aged times m' := by
  obtain ⟨-, hlast, hactive⟩ : m'.addr = m.addr ∧ m'.lastSeen = m.lastSeen ∧
      m'.activeSecs = m.activeSecs := by
    simpa [ChirpMiner.age] using hage
  exact ⟨hlast ▸ h.lastSeen, hactive ▸ h.activeSecs⟩

/-- An address is as old as its shares say, or unknown. -/
def AgedOrUnknown (times : List Nat) : Option ChirpMiner → Prop
  | none => times = []
  | some m => Aged times m

theorem recordedTimes_append (calls : List RegistryCall) (call : RegistryCall)
    (addr : ChirpAddr) :
    recordedTimes (calls ++ [call]) addr =
      recordedTimes calls addr ++ recordedTimes [call] addr := by
  rw [recordedTimes, recordedShares_append, List.map_append]
  rfl

theorem agedOrUnknown_run (calls : List RegistryCall) (addr : ChirpAddr) :
    AgedOrUnknown (recordedTimes calls addr) (memberOf (RegistryCall.run calls) addr) := by
  induction calls using List.reverseRecOn with
  | nil => rfl
  | append_singleton calls call ih =>
    rw [recordedTimes_append, RegistryCall.run, List.foldl_append]
    show AgedOrUnknown _ (memberOf (call.apply (RegistryCall.run calls)) addr)
    cases hrecorded : call.recorded with
    | none =>
      have hsame : (memberOf (call.apply (RegistryCall.run calls)) addr).map ChirpMiner.age =
          (memberOf (RegistryCall.run calls) addr).map ChirpMiner.age := by
        rw [map_age_memberOf, map_age_memberOf, map_age_apply _ hrecorded]
      have hquiet : recordedTimes [call] addr = [] := by
        simp [recordedTimes, recordedShares, hrecorded]
      rw [hquiet, List.append_nil]
      cases hbefore : memberOf (RegistryCall.run calls) addr with
      | none =>
        rw [hbefore] at ih hsame
        rw [Option.map_eq_none_iff.mp hsame]
        exact ih
      | some m =>
        rw [hbefore] at ih hsame
        obtain ⟨m', hafter, hage⟩ := Option.map_eq_some_iff.mp hsame
        rw [hafter]
        exact Aged.of_age ih hage
    | some entry =>
      cases call with
      | candidates env now => cases hrecorded
      | memberStats i days power now => cases hrecorded
      | recordShare text work now =>
        show AgedOrUnknown _ (memberOf (chirpRecordShare _ text work now) addr)
        rw [memberOf_chirpRecordShare, recordedTimes, recordedTimes, recordedShares_recordShare]
        by_cases haddr : addr = .copy text
        · rw [if_pos haddr, if_pos haddr]
          cases hbefore : memberOf (RegistryCall.run calls) addr with
          | none =>
            rw [hbefore] at ih
            have hnone : (recordedShares calls addr).map ChirpShare.stamp = [] := ih
            rw [hnone]
            exact aged_fresh text work now
          | some m =>
            rw [hbefore] at ih
            exact Aged.record ih work now
        · rw [if_neg haddr, if_neg haddr, List.map_nil, List.append_nil]
          exact ih

/-- `active_secs` is what the gaps that count add up to. -/
theorem activeSecsOf_eq (calls : List RegistryCall) (addr : ChirpAddr) :
    activeSecsOf calls addr =
      ((Coverage.gaps countsGap (recordedTimes calls addr)).map Finset.card).sum := by
  have haged := agedOrUnknown_run calls addr
  unfold activeSecsOf
  cases hmember : memberOf (RegistryCall.run calls) addr with
  | none =>
    rw [hmember] at haged
    have hnone : recordedTimes calls addr = [] := haged
    rw [hnone]
    rfl
  | some m =>
    rw [hmember] at haged
    exact haged.activeSecs

theorem recordedTimes_isPrefix {earlier later : List RegistryCall} (h : earlier <+: later)
    (addr : ChirpAddr) : recordedTimes earlier addr <+: recordedTimes later addr := by
  obtain ⟨rest, rfl⟩ := h
  rw [recordedTimes, recordedTimes, recordedShares_append, List.map_append]
  exact List.prefix_append _ _

/-- Calls in the order of their times count no second twice. -/
theorem countsOnce_of_chronological (hchron : RegistryCall.Chronological calls)
    (addr : ChirpAddr) : CountsOnce calls addr := by
  apply Coverage.disjoint_gaps_of_sorted
  rw [recordedTimes, recordedShares, List.pairwise_map, List.pairwise_map]
  apply List.Pairwise.filter
  refine hchron.filterMap _ ?_
  intro earlier later hle entry hentry entry' hentry'
  have hstamp : ∀ {call : RegistryCall} {entry}, call.recorded = some entry →
      entry.2.stamp = call.now.toNat := by
    intro call entry hsome
    cases call with
    | recordShare text work now =>
      obtain rfl := Option.some.inj hsome
      rfl
    | candidates env now => cases hsome
    | memberStats i days power now => cases hsome
  rw [hstamp hentry, hstamp hentry']
  exact UInt64.le_iff_toNat_le.mp hle

end Run

/-- As long as no second is counted twice for an address, its tenure is within real
    time. -/
theorem tenureBounded_of_countsOnce (calls : List RegistryCall) (addr : ChirpAddr)
    (h : CountsOnce calls addr) : TenureBounded calls addr := by
  constructor
  · intro reached hreached
    have hgaps := Coverage.gaps_isPrefix countsGap (recordedTimes_isPrefix hreached addr)
    have hle := Coverage.sum_card_gaps_le countsGap (h.sublist hgaps.sublist)
    rw [activeSecsOf_eq]
    exact_mod_cast hle
  · intro earlier later hearlier _
    obtain ⟨more, hmore⟩ :=
      Coverage.gaps_isPrefix countsGap (recordedTimes_isPrefix hearlier addr)
    rw [activeSecsOf_eq, activeSecsOf_eq, ← hmore, List.map_append, List.sum_append, Nat.cast_add]
    exact le_add_of_nonneg_right (Nat.cast_nonneg _)

/-- A share that comes late, with the next one a day after it. -/
def lateShare : List RegistryCall :=
  [.recordShare (Bytes.ascii "bc1q") 8 100000, .recordShare (Bytes.ascii "bc1q") 8 100003,
    .recordShare (Bytes.ascii "bc1q") 8 100001, .candidates openGate 150000,
    .recordShare (Bytes.ascii "bc1q") 8 190000]

theorem tenureBounded_lateShare : TenureBounded lateShare (.copy (Bytes.ascii "bc1q")) :=
  tenureBounded_of_countsOnce lateShare _ (by
    unfold CountsOnce
    decide +kernel)

/-- Two threads at a second boundary, each with two shares: the two seconds are
    recorded in turns. -/
def secondBoundary : List RegistryCall :=
  [.recordShare (Bytes.ascii "bc1q") 8 100000, .recordShare (Bytes.ascii "bc1q") 8 100001,
    .recordShare (Bytes.ascii "bc1q") 8 100000, .recordShare (Bytes.ascii "bc1q") 8 100001]

/-- They are one second apart, and the member is two seconds old. -/
theorem not_secondBoundary_tenureBounded :
    ¬ TenureBounded secondBoundary (.copy (Bytes.ascii "bc1q")) := by
  intro hbounded
  have hspan := hbounded.bounded secondBoundary (List.prefix_refl _)
  revert hspan
  decide +kernel

end ChirpGateway
