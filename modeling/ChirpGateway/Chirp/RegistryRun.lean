import ChirpGateway.Chirp.Record
import ChirpGateway.Chirp.Snapshot
import ChirpGateway.Lib.Labelled
import Mathlib.Data.List.Induction

/-!
# Runs over the registry

Shares are recorded and members are read in any order, and every read prunes the
window in place. What is kept is tied to the log of everything ever recorded:
from the last cutoff on the two cannot be told apart, so the window is exact at
every read whose time does not go back.
-/

namespace ChirpGateway

/-- A call on the registry. -/
inductive RegistryCall where
  | recordShare (addr : List UInt8) (work : Rat) (now : UInt64)
  | candidates (env : ChirpEnv) (now : UInt64)
  | memberStats (i : Nat) (days power : Bool) (now : UInt64)

namespace RegistryCall

/-- The time of a call. -/
def now : RegistryCall → UInt64
  | recordShare _ _ now => now
  | candidates _ now => now
  | memberStats _ _ _ now => now

/-- What a call leaves of the registry. -/
def apply (registry : List ChirpMiner) : RegistryCall → List ChirpMiner
  | recordShare addr work now => chirpRecordShare registry addr work now
  | candidates env now => (chirpCandidates env registry now).1
  | memberStats i days power now =>
    registry.modify i fun m => (chirpMemberStats m now days power).1

/-- The member a call records for, and the share. -/
def recorded : RegistryCall → Option (ChirpAddr × ChirpShare)
  | recordShare addr work now => some (.copy addr, { ts := now, work })
  | _ => none

/-- The registry after a run of calls on `chirp_init`'s. -/
def run (calls : List RegistryCall) : List ChirpMiner :=
  calls.foldl apply []

/-- The calls come in the order of their times. -/
def Chronological (calls : List RegistryCall) : Prop :=
  calls.Pairwise fun earlier later => earlier.now ≤ later.now

end RegistryCall

/-- Every share ever recorded for a member, oldest first. -/
def recordedShares (calls : List RegistryCall) (addr : ChirpAddr) : List ChirpShare :=
  ((calls.filterMap RegistryCall.recorded).filter fun entry => entry.1 = addr).map Prod.snd

/-- The work recorded for a member in the 24 hours up to `now`. -/
def recordedWork (calls : List RegistryCall) (addr : ChirpAddr) (now : UInt64) : Rat :=
  (((recordedShares calls addr).filter fun share =>
    (now.toNat : Int) - 86400 ≤ share.ts.toNat).map ChirpShare.work).sum

/-! ## The listing of the snapshot -/

/-- `(json_int_t)` of a double: the fraction is dropped. -/
def jsonIntOfDouble (value : Rat) : Json :=
  .integer (value.num.tdiv value.den)

/-- An entry of `registry` in the snapshot (`datum_chirp_glue.c:165-175`), with the
    member it leaves behind. -/
def snapshotMember (env : ChirpEnv) (now : UInt64) (m : ChirpMiner) : ChirpMiner × Json :=
  let (pruned, days, power) := chirpMemberStats m now true true
  (pruned, .ofMembers
    [("addr", Json.ofText m.addr.bytes),
      ("active_secs", some (jsonIntOfDouble m.activeSecs)),
      ("power", some (jsonIntOfDouble (power.getD 0))),
      ("eligible", some (.bool
        (days.getD 0 ≥ env.chirpMinDays && power.getD 0 ≥ env.chirpMinPower)))])

/-- The flag is the gate of `chirp_candidates`, read off the same member. -/
theorem snapshotMember_eligible_iff (env : ChirpEnv) (now : UInt64) (m : ChirpMiner) :
    (snapshotMember env now m).2.isTrueAt "eligible" = true ↔
      env.chirpMinDays ≤ m.activeSecs / 86400 ∧ env.chirpMinPower ≤ (windowWork m now).2 := by
  have hget : (snapshotMember env now m).2.objectGet "eligible" = some (.bool
      (m.activeSecs / 86400 ≥ env.chirpMinDays &&
        (windowWork m now).2 ≥ env.chirpMinPower)) := by
    show (Json.ofMembers _).objectGet _ = _
    rw [Json.objectGet_ofMembers (by simp)]
    rfl
  rw [Json.isTrueAt, hget, ← Bool.decide_and]
  by_cases hgate : env.chirpMinDays ≤ m.activeSecs / 86400 ∧
      env.chirpMinPower ≤ (windowWork m now).2
  · simp [hgate]
  · simp [hgate]

/-- Who passes the gate, and with what entry. -/
theorem chirpCandidate_eq_some_iff (env : ChirpEnv) (m : ChirpMiner) (now : UInt64)
    (cand : ChirpCand) :
    chirpCandidate env m now = some cand ↔
      (env.chirpMinDays ≤ m.activeSecs / 86400 ∧ env.chirpMinPower ≤ (windowWork m now).2) ∧
      { addr := m.addr
        weight := (min (m.activeSecs / 86400 / env.chirpDaysFull) 1 +
          min ((windowWork m now).2 / env.chirpPowerFull) 1) / 2
        activeSecs := m.activeSecs
        power := (windowWork m now).2 : ChirpCand } = cand := by
  unfold chirpCandidate
  by_cases hgate : m.activeSecs / 86400 < env.chirpMinDays ∨
      (windowWork m now).2 < env.chirpMinPower
  · have hclosed : ¬ (env.chirpMinDays ≤ m.activeSecs / 86400 ∧
        env.chirpMinPower ≤ (windowWork m now).2) := by
      rintro ⟨hdays, hpower⟩
      rcases hgate with hlow | hlow
      · exact absurd hdays (not_le.mpr hlow)
      · exact absurd hpower (not_le.mpr hlow)
    simp [hgate, hclosed]
  · rw [not_or, not_lt, not_lt] at hgate
    simp [hgate, not_lt.mpr hgate.1, not_lt.mpr hgate.2]

/-! ## What is kept, and what was recorded -/

theorem recordedShares_append (calls calls' : List RegistryCall) (addr : ChirpAddr) :
    recordedShares (calls ++ calls') addr =
      recordedShares calls addr ++ recordedShares calls' addr := by
  simp only [recordedShares, List.filterMap_append, List.filter_append, List.map_append]

theorem recordedShares_recordShare (addr : List UInt8) (work : Rat) (now : UInt64)
    (other : ChirpAddr) :
    recordedShares [.recordShare addr work now] other =
      if other = .copy addr then [{ ts := now, work }] else [] := by
  by_cases hother : other = .copy addr
  · simp [recordedShares, RegistryCall.recorded, hother]
  · simp [recordedShares, RegistryCall.recorded, hother, Ne.symm hother]

theorem recordedShares_eq_nil {calls : List RegistryCall} {addr : ChirpAddr}
    (hnone : ∀ share, (addr, share) ∉ calls.filterMap RegistryCall.recorded) :
    recordedShares calls addr = [] := by
  rw [recordedShares, List.map_eq_nil_iff, List.filter_eq_nil_iff]
  rintro ⟨other, share⟩ hentry
  rw [decide_eq_true_iff]
  rintro rfl
  exact hnone share hentry

/-- The registry against the calls made so far: who is in it, and what of the log
    is still there. -/
structure Tracks (cutoff : Nat) (calls : List RegistryCall) (registry : List ChirpMiner) :
    Prop where
  distinct : (registry.map ChirpMiner.addr).Nodup
  members : ∀ addr, addr ∈ registry.map ChirpMiner.addr ↔
    ∃ share, (addr, share) ∈ calls.filterMap RegistryCall.recorded
  kept : ∀ m ∈ registry,
    Window.AgreeFrom ChirpShare.stamp cutoff m.shares (recordedShares calls m.addr)

/-- What a read leaves of a member. -/
def ReadFrom (cutoff : Nat) (m m' : ChirpMiner) : Prop :=
  m'.addr = m.addr ∧
    (m'.shares = m.shares ∨ m'.shares = Window.since ChirpShare.stamp cutoff m.shares)

theorem readFrom_windowWork (m : ChirpMiner) (now : UInt64) :
    ReadFrom (windowCutoff now) m (windowWork m now).1 :=
  ⟨rfl, .inr (windowWork_shares m now)⟩

theorem readFrom_chirpMemberStats (m : ChirpMiner) (now : UInt64) (days power : Bool) :
    ReadFrom (windowCutoff now) m (chirpMemberStats m now days power).1 := by
  cases power with
  | true => exact readFrom_windowWork m now
  | false => exact ⟨rfl, .inl rfl⟩

theorem forall₂_readFrom_modify {cutoff : Nat} {f : ChirpMiner → ChirpMiner}
    (hf : ∀ m, ReadFrom cutoff m (f m)) (registry : List ChirpMiner) (i : Nat) :
    List.Forall₂ (ReadFrom cutoff) registry (registry.modify i f) := by
  have hsame : ∀ m, ReadFrom cutoff m m := fun m => ⟨rfl, .inl rfl⟩
  induction registry generalizing i with
  | nil =>
    rw [List.modify_nil]
    exact .nil
  | cons m registry ih =>
    cases i with
    | zero => exact .cons (hf m) (List.forall₂_same.mpr fun m _ => hsame m)
    | succ i => exact .cons (hsame m) (ih i)

theorem exists_readFrom_of_mem {cutoff : Nat} {registry registry' : List ChirpMiner}
    (hread : List.Forall₂ (ReadFrom cutoff) registry registry') {m' : ChirpMiner}
    (hm' : m' ∈ registry') : ∃ m ∈ registry, ReadFrom cutoff m m' := by
  induction hread with
  | nil => cases hm'
  | cons hfirst _ ih =>
    rcases List.mem_cons.mp hm' with rfl | hrest
    · exact ⟨_, List.mem_cons_self, hfirst⟩
    · obtain ⟨m, hm, hreadFrom⟩ := ih hrest
      exact ⟨m, List.mem_cons_of_mem _ hm, hreadFrom⟩

namespace Tracks

variable {cutoff late : Nat} {calls : List RegistryCall} {registry registry' : List ChirpMiner}

theorem mono (htracks : Tracks cutoff calls registry) (hle : cutoff ≤ late) :
    Tracks late calls registry where
  distinct := htracks.distinct
  members := htracks.members
  kept m hm := (htracks.kept m hm).mono hle

/-- A read moves the cutoff along. -/
theorem read (htracks : Tracks cutoff calls registry) (hle : cutoff ≤ late)
    (hread : List.Forall₂ (ReadFrom late) registry registry') :
    Tracks late calls registry' := by
  have haddrs : registry'.map ChirpMiner.addr = registry.map ChirpMiner.addr := by
    rw [← List.forall₂_eq_eq_eq, List.forall₂_map_left_iff, List.forall₂_map_right_iff]
    exact hread.flip.imp fun _ _ hreadFrom => hreadFrom.1
  refine ⟨haddrs ▸ htracks.distinct, haddrs ▸ htracks.members, ?_⟩
  intro m' hm'
  obtain ⟨m, hm, haddr, hshares⟩ := exists_readFrom_of_mem hread hm'
  have hkept := htracks.kept m hm
  rw [haddr]
  rcases hshares with hsame | hpruned
  · rw [hsame]
    exact hkept.mono hle
  · rw [hpruned]
    exact hkept.prune_left hle

/-- A share goes into the log and to its member alike. -/
theorem recordShare (htracks : Tracks cutoff calls registry) (addr : List UInt8) (work : Rat)
    (now : UInt64) :
    Tracks cutoff (calls ++ [.recordShare addr work now])
      (chirpRecordShare registry addr work now) := by
  refine ⟨chirpRecordShare_nodup addr work now htracks.distinct, ?_, ?_⟩
  · intro other
    rw [mem_addrs_chirpRecordShare, htracks.members, List.filterMap_append]
    simp only [List.mem_append]
    simp [RegistryCall.recorded, exists_or]
  · intro m hm
    rw [recordedShares_append, recordedShares_recordShare]
    rcases mem_chirpRecordShare addr work now htracks.distinct hm with
      ⟨hmem, hne⟩ | ⟨old, hold, haddr, rfl⟩ | ⟨hfresh, rfl⟩
    · rw [if_neg hne, List.append_nil]
      exact htracks.kept m hmem
    · rw [ChirpMiner.record_addr, if_pos haddr, ChirpMiner.record_shares]
      exact (htracks.kept old hold).append _
    · rw [htracks.members, not_exists] at hfresh
      rw [ChirpMiner.record_addr, ChirpMiner.fresh_addr, if_pos rfl,
        recordedShares_eq_nil hfresh]
      exact .refl _ _

/-- One call, at a time whose cutoff is not before the last one. -/
theorem call (htracks : Tracks cutoff calls registry) (call : RegistryCall)
    (hle : cutoff ≤ windowCutoff call.now) :
    Tracks (windowCutoff call.now) (calls ++ [call]) (call.apply registry) := by
  have hquiet : ∀ {registry'}, call.recorded = none →
      Tracks (windowCutoff call.now) calls registry' →
      Tracks (windowCutoff call.now) (calls ++ [call]) registry' := by
    intro registry' hnone hsame
    have hlog : (calls ++ [call]).filterMap RegistryCall.recorded =
        calls.filterMap RegistryCall.recorded := by
      simp [hnone]
    refine ⟨hsame.distinct, ?_, ?_⟩
    · rw [hlog]
      exact hsame.members
    · simp only [recordedShares, hlog]
      exact hsame.kept
  cases call with
  | recordShare addr work now => exact (htracks.mono hle).recordShare addr work now
  | candidates env now =>
    apply hquiet rfl
    apply htracks.read hle
    show List.Forall₂ _ registry (registry.map _)
    rw [List.forall₂_map_right_iff]
    exact List.forall₂_same.mpr fun m _ => readFrom_windowWork m now
  | memberStats i days power now =>
    apply hquiet rfl
    apply htracks.read hle
    exact forall₂_readFrom_modify (fun m => readFrom_chirpMemberStats m now days power) registry i

end Tracks

theorem windowCutoff_mono {earlier later : UInt64} (hle : earlier ≤ later) :
    windowCutoff earlier ≤ windowCutoff later :=
  Nat.sub_le_sub_right (UInt64.le_iff_toNat_le.mp hle) _

/-- Any run in the order of its times is tracked, up to any cutoff that is not
    before its own. -/
theorem tracks_run {calls : List RegistryCall} (hchron : RegistryCall.Chronological calls)
    {cutoff : Nat} (hcutoff : ∀ call ∈ calls, windowCutoff call.now ≤ cutoff) :
    Tracks cutoff calls (RegistryCall.run calls) := by
  induction calls using List.reverseRecOn generalizing cutoff with
  | nil => exact ⟨List.nodup_nil, by simp [RegistryCall.run], by simp [RegistryCall.run]⟩
  | append_singleton calls call ih =>
    obtain ⟨hbefore, -, hlast⟩ := List.pairwise_append.mp hchron
    have hprev : Tracks (windowCutoff call.now) calls (RegistryCall.run calls) :=
      ih hbefore fun earlier hearlier =>
        windowCutoff_mono (hlast earlier hearlier call (List.mem_singleton_self call))
    rw [RegistryCall.run, List.foldl_append]
    exact (hprev.call call le_rfl).mono
      (hcutoff call (List.mem_append_right _ (List.mem_singleton_self call)))

/-! ## The window is exact -/

/-- At a call of `chirp_candidates` after a run: every address has one member, the
    power of each is the work recorded for it in the last 24 hours, and the
    candidates, like the flags of the snapshot, are those whose tenure and power
    meet the thresholds. -/
structure WindowExact (calls : List RegistryCall) (env : ChirpEnv) (now : UInt64) : Prop where
  distinct : ((RegistryCall.run calls).map ChirpMiner.addr).Nodup
  members : ∀ addr, addr ∈ (RegistryCall.run calls).map ChirpMiner.addr ↔
    ∃ share, (addr, share) ∈ calls.filterMap RegistryCall.recorded
  power : ∀ m ∈ RegistryCall.run calls, (windowWork m now).2 = recordedWork calls m.addr now
  candidate : ∀ m ∈ RegistryCall.run calls,
    (∃ cand ∈ (chirpCandidates env (RegistryCall.run calls) now).2, cand.addr = m.addr) ↔
      env.chirpMinDays ≤ m.activeSecs / 86400 ∧
        env.chirpMinPower ≤ recordedWork calls m.addr now
  candidatePower : ∀ cand ∈ (chirpCandidates env (RegistryCall.run calls) now).2,
    cand.power = recordedWork calls cand.addr now
  eligible : ∀ m ∈ (chirpCandidates env (RegistryCall.run calls) now).1,
    (snapshotMember env now m).2.isTrueAt "eligible" = true ↔
      ∃ cand ∈ (chirpCandidates env (RegistryCall.run calls) now).2, cand.addr = m.addr

/-- The entries the window leaves are the ones of the last 24 hours. -/
theorem recordedWork_eq (calls : List RegistryCall) (addr : ChirpAddr) (now : UInt64) :
    recordedWork calls addr now =
      ((Window.since ChirpShare.stamp (windowCutoff now) (recordedShares calls addr)).map
        ChirpShare.work).sum := by
  have hwindow : ((recordedShares calls addr).filter fun share =>
      (now.toNat : Int) - 86400 ≤ share.ts.toNat) =
        Window.since ChirpShare.stamp (windowCutoff now) (recordedShares calls addr) := by
    apply List.filter_congr
    intro share _
    rw [decide_eq_decide, ChirpShare.stamp, windowCutoff, chirpWindowSecs]
    omega
  rw [recordedWork, hwindow]

/-- With distinct addresses a member is a candidate when its own entry is. -/
theorem exists_candidate_iff {env : ChirpEnv} {registry : List ChirpMiner} {now : UInt64}
    (hdistinct : (registry.map ChirpMiner.addr).Nodup) {m : ChirpMiner} (hm : m ∈ registry) :
    (∃ cand ∈ (chirpCandidates env registry now).2, cand.addr = m.addr) ↔
      (chirpCandidate env m now).isSome = true := by
  have hkeeps : Labelled.Keeps ChirpMiner.addr ChirpCand.addr
      fun m => chirpCandidate env m now := by
    intro m cand hcand
    obtain ⟨-, rfl⟩ := (chirpCandidate_eq_some_iff env m now cand).mp hcand
    rfl
  rw [Option.isSome_iff_exists]
  exact exists_congr fun cand =>
    (Labelled.eq_some_iff_mem_filterMap hkeeps hdistinct hm cand).symm

theorem isSome_chirpCandidate_iff (env : ChirpEnv) (m : ChirpMiner) (now : UInt64) :
    (chirpCandidate env m now).isSome = true ↔
      env.chirpMinDays ≤ m.activeSecs / 86400 ∧ env.chirpMinPower ≤ (windowWork m now).2 := by
  simp [Option.isSome_iff_exists, chirpCandidate_eq_some_iff]

/-- Reading a member again at the same time finds the same work. -/
theorem windowWork_windowWork (m : ChirpMiner) (now : UInt64) :
    (windowWork (windowWork m now).1 now).2 = (windowWork m now).2 := by
  rw [windowWork_snd, windowWork_snd, windowWork_shares,
    Window.since_since _ (le_refl (windowCutoff now))]

/-- Whoever reads the registry in between, the window of 24 hours is exact. -/
theorem windowExact_of_chronological (calls : List RegistryCall) (env : ChirpEnv) (now : UInt64)
    (hchron : RegistryCall.Chronological (calls ++ [.candidates env now])) :
    WindowExact calls env now := by
  obtain ⟨hbefore, -, hlast⟩ := List.pairwise_append.mp hchron
  have htracks : Tracks (windowCutoff now) calls (RegistryCall.run calls) :=
    tracks_run hbefore fun earlier hearlier =>
      windowCutoff_mono (hlast earlier hearlier _ (List.mem_singleton_self _))
  have hpower : ∀ m ∈ RegistryCall.run calls,
      (windowWork m now).2 = recordedWork calls m.addr now := by
    intro m hm
    rw [windowWork_snd, htracks.kept m hm _ le_rfl, recordedWork_eq]
  refine ⟨htracks.distinct, htracks.members, hpower, ?_, ?_, ?_⟩
  · intro m hm
    rw [exists_candidate_iff htracks.distinct hm, isSome_chirpCandidate_iff, hpower m hm]
  · intro cand hcand
    obtain ⟨m, hm, hentry⟩ := List.mem_filterMap.mp hcand
    obtain ⟨-, rfl⟩ := (chirpCandidate_eq_some_iff env m now cand).mp hentry
    exact hpower m hm
  · intro pruned hpruned
    obtain ⟨m, hm, rfl⟩ := List.mem_map.mp hpruned
    rw [snapshotMember_eligible_iff, windowWork_windowWork, windowWork_addr,
      exists_candidate_iff htracks.distinct hm, isSome_chirpCandidate_iff]
    rfl

/-- No thresholds beyond one unit of work. -/
def openGate : ChirpEnv where
  snapshotCommit := true
  minDays := some 0
  minPower := some 1
  daysFull := none
  powerFull := none

/-- Two days of work, read once in between. -/
def twoDays : List RegistryCall :=
  [.recordShare (Bytes.ascii "bc1q") 8 100000, .candidates openGate 150000,
    .recordShare (Bytes.ascii "bc1q") 16 190000]

theorem windowExact_twoDays : WindowExact twoDays openGate 200000 :=
  windowExact_of_chronological twoDays openGate 200000 (by
    unfold RegistryCall.Chronological twoDays
    decide)

end ChirpGateway
