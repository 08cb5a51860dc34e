import ChirpGateway.Stratum.ClientStream

/-!
# The difficulties of a client

What is announced, what is stored for a job, and what a share is credited with agree,
as long as the write buffer has room for each announcement. A difficulty counts as sent
whether it was or not.
-/

namespace ChirpGateway

open Bytes Transition

/-! ## Where a target is stored -/

def MinerDiffs.diffAt (m : MinerDiffs) : Option (Fin 256) → UInt64
  | none => m.quickdiffValue
  | some slot => m.stratumJobDiffs slot

def MinerDiffs.targetAt (m : MinerDiffs) : Option (Fin 256) → Hash32
  | none => m.quickdiffTarget
  | some slot => m.stratumJobTargets slot

/-- The kind of the job of the last notify that stored a target there. -/
def kindAt (key : Option (Fin 256)) : List LedgerEntry → Option Bool
  | [] => none
  | .notified slot isBlake2b quickdiff _ :: earlier =>
    if noteKey slot quickdiff = key then some isBlake2b else kindAt key earlier
  | .announced _ :: earlier => kindAt key earlier
  | .credited _ _ :: earlier => kindAt key earlier

/-- Every credit is for a difficulty that was announced before, and the share was
    compared against its target. -/
def CreditsAnnounced : List LedgerEntry → Prop
  | [] => True
  | .credited diff target :: earlier =>
    (.announced diff ∈ earlier ∧ ∃ isBlake2b, target = shareTarget isBlake2b diff) ∧
      CreditsAnnounced earlier
  | .announced _ :: earlier => CreditsAnnounced earlier
  | .notified _ _ _ _ :: earlier => CreditsAnnounced earlier

namespace ClientState

/-- Right after a notify for a job of the pool, its minimum holds. -/
def MeetsPoolMin (s : ClientState) : Prop :=
  match s.ledger with
  | .notified _ _ _ poolMin :: _ => poolMin ≤ s.m.currentDiff ∧ poolMin ≤ s.m.lastSentDiff
  | _ => True

/-- The difficulties of a client are kept consistently. -/
structure DiffsConsistent (cfg : VardiffConfig) (s : ClientState) : Prop where
  current : s.m.subscribed = true → cfg.Admits s.m.forcedHighMinDiff s.m.currentDiff
  lastSent : s.m.subscribed = true → cfg.Admits s.m.forcedHighMinDiff s.m.lastSentDiff
  poolMin : s.MeetsPoolMin
  targets : ∀ key isBlake2b, kindAt key s.ledger = some isBlake2b →
    s.m.targetAt key = shareTarget isBlake2b (s.m.diffAt key)
  credits : CreditsAnnounced s.ledger

/-! ## The condition -/

/-- A change of difficulty does not leave 64 bits. -/
def NoOverflow (m : MinerDiffs) : VardiffMove → Prop
  | .raise => m.currentDiff.toNat * 2 ^ 1 < 2 ^ 64
  | .quick ratio =>
    ratio.toNat * m.currentDiff.toNat < 2 ^ 64 ∧ m.currentDiff.toNat * 2 ^ 2 < 2 ^ 64
  | _ => True

variable (cfg : VardiffConfig) (fingerprintMiners : Bool) (s : ClientState)

/-- The change of difficulty that is due does not overflow. -/
def MoveFits (noQuick : Bool) : Prop := NoOverflow s.m (vardiffMove cfg s.m noQuick s.loopTsms)

/-- No difficulty overflows in the step. -/
def StaysInWord : ClientEvent → Prop
  | .subscribe id sid useragent _ => s.m.subscribed = false →
    ((s.subscribing cfg fingerprintMiners id sid useragent).subscribed cfg).MoveFits cfg true
  | .submit share _ => s.accepts share = true → (s.credit share).MoveFits cfg false
  | .notify _ _ _ => s.MoveFits cfg true
  | _ => True

/-- The write buffer has room for the difficulty, if one is announced. -/
def AnnounceFits : Prop :=
  s.m.lastSentDiff ≠ s.m.currentDiff → s.Fits (setDifficultyText s.m.currentDiff)

/-- The same in a notify. -/
def NotifyAnnounces (quickdiff : Bool) : Prop :=
  ∀ job, s.curStratumJob = some job → (s.adjusted cfg job quickdiff).AnnounceFits

/-- The place of the target a share is compared against. -/
def shareKey (share : ShareCall) : Option (Fin 256) := noteKey share.jobIndex share.quickdiff

/-- Every difficulty that is sent in the step fits, and a share whose hash is zero is for a
    target that came with a notify. -/
def Announces : ClientEvent → Prop
  | .subscribe id sid useragent _ => s.m.subscribed = false →
    let s := s.subscribing cfg fingerprintMiners id sid useragent
    s.Fits (setDifficultyText s.m.currentDiff) ∧ (s.subscribed cfg).NotifyAnnounces cfg false
  | .submit share _ => s.accepts share = true →
    (share.shareHash.bytes = List.replicate 32 0 → kindAt (shareKey share) s.ledger ≠ none) ∧
      let s := s.credit share
      ∀ ratio, vardiffMove cfg s.m false s.loopTsms = .quick ratio →
        (s.quickened ratio).NotifyAnnounces cfg true
  | .notify _ _ _ => s.NotifyAnnounces cfg false
  | _ => True

/-! ## What a run keeps -/

structure DiffsKept : Prop where
  current : s.m.subscribed = true → cfg.Admits s.m.forcedHighMinDiff s.m.currentDiff
  lastSent : s.m.subscribed = true → cfg.Admits s.m.forcedHighMinDiff s.m.lastSentDiff
  announced : s.m.subscribed = true → .announced s.m.lastSentDiff ∈ s.ledger
  targets : ∀ key isBlake2b, kindAt key s.ledger = some isBlake2b →
    s.m.targetAt key = shareTarget isBlake2b (s.m.diffAt key) ∧
      .announced (s.m.diffAt key) ∈ s.ledger
  unnotified : ∀ key, kindAt key s.ledger = none →
    (s.m.targetAt key).bytes = List.replicate 32 0
  unsubscribed : s.m.subscribed = false → s.ledger = [] ∧ s.m.forcedHighMinDiff = 0
  forcedMin : s.m.forcedHighMinDiff = 0 ∨ IsPowerOfTwo s.m.forcedHighMinDiff
  poolMin : s.overrideVardiffMin = 0 ∨ IsPowerOfTwo s.overrideVardiffMin
  credits : CreditsAnnounced s.ledger

end ClientState

/-- Nothing but the current difficulty and the tallies differs. -/
structure MinerDiffs.SameTables (m m' : MinerDiffs) : Prop where
  subscribed : m'.subscribed = m.subscribed
  lastSentDiff : m'.lastSentDiff = m.lastSentDiff
  diffAt : m'.diffAt = m.diffAt
  targetAt : m'.targetAt = m.targetAt
  forcedHighMinDiff : m'.forcedHighMinDiff = m.forcedHighMinDiff

namespace ClientState

variable {cfg : VardiffConfig} {fingerprintMiners : Bool} {s : ClientState}

theorem DiffsKept.of_sameTables (h : s.DiffsKept cfg) {s' : ClientState}
    (hsame : s.m.SameTables s'.m) (hledger : s'.ledger = s.ledger)
    (hpool : s'.overrideVardiffMin = s.overrideVardiffMin)
    (hcurrent : s.m.subscribed = true → cfg.Admits s.m.forcedHighMinDiff s'.m.currentDiff) :
    s'.DiffsKept cfg := by
  obtain ⟨hsubscribed, hlast, hdiffs, htargets, hforced⟩ := hsame
  constructor
  · rw [hsubscribed, hforced]
    exact hcurrent
  · rw [hsubscribed, hforced, hlast]
    exact h.lastSent
  · rw [hsubscribed, hlast, hledger]
    exact h.announced
  · rw [hledger, hdiffs, htargets]
    exact h.targets
  · rw [hledger, htargets]
    exact h.unnotified
  · rw [hsubscribed, hledger, hforced]
    exact h.unsubscribed
  · rw [hforced]
    exact h.forcedMin
  · rw [hpool]
    exact h.poolMin
  · rw [hledger]
    exact h.credits

theorem DiffsKept.congr (h : s.DiffsKept cfg) {s' : ClientState} (hm : s'.m = s.m)
    (hledger : s'.ledger = s.ledger) (hpool : s'.overrideVardiffMin = s.overrideVardiffMin) :
    s'.DiffsKept cfg := by
  apply h.of_sameTables _ hledger hpool
  · rw [hm]
    exact h.current
  · rw [hm]
    exact ⟨rfl, rfl, rfl, rfl, rfl⟩

/-- The minimum of the pool only counts at the next notify. -/
theorem DiffsKept.of_poolMin (h : s.DiffsKept cfg) {diff : UInt64} (hpower : IsPowerOfTwo diff) :
    DiffsKept cfg { s with overrideVardiffMin := diff } :=
  ⟨h.current, h.lastSent, h.announced, h.targets, h.unnotified, h.unsubscribed, h.forcedMin,
    Or.inr hpower, h.credits⟩

theorem DiffsKept.sendPieces (h : s.DiffsKept cfg) (pieces messages : List (List UInt8)) :
    (s.sendPieces pieces messages).DiffsKept cfg :=
  h.congr rfl rfl rfl

/-! ## Changes of difficulty -/

theorem DiffsKept.quickened (h : s.DiffsKept cfg) {ratio : UInt64}
    (hfits : NoOverflow s.m (.quick ratio)) : (s.quickened ratio).DiffsKept cfg := by
  refine h.of_sameTables ?_ rfl rfl ?_
  · exact ⟨rfl, rfl, rfl, rfl, rfl⟩
  · intro hsubscribed
    exact (h.current hsubscribed).quickDiff hfits.2 ratio

theorem DiffsKept.resetVardiffStats (h : s.DiffsKept cfg) :
    DiffsKept cfg { s with m := s.m.resetVardiffStats s.loopTsms } :=
  h.of_sameTables ⟨rfl, rfl, rfl, rfl, rfl⟩ rfl rfl h.current

theorem DiffsKept.updateVardiff (h : s.DiffsKept cfg) {notifyQuick : ClientState → ClientState}
    {noQuick : Bool} (hfits : s.MoveFits cfg noQuick)
    (hquick : ∀ ratio, vardiffMove cfg s.m noQuick s.loopTsms = .quick ratio →
      (notifyQuick (s.quickened ratio)).DiffsKept cfg) :
    (s.updateVardiff cfg notifyQuick noQuick).DiffsKept cfg := by
  unfold MoveFits at hfits
  unfold ClientState.updateVardiff
  cases hmove : vardiffMove cfg s.m noQuick s.loopTsms with
  | keep => exact h
  | lower =>
    refine h.of_sameTables ?_ rfl rfl ?_
    · exact ⟨rfl, rfl, rfl, rfl, rfl⟩
    · intro hsubscribed
      exact admits_loweredDiff (h.current hsubscribed).powerOfTwo h.forcedMin
  | raise =>
    rw [hmove] at hfits
    refine h.of_sameTables ?_ rfl rfl ?_
    · exact ⟨rfl, rfl, rfl, rfl, rfl⟩
    · intro hsubscribed
      exact (h.current hsubscribed).shiftLeft (by decide) hfits
  | quick ratio => exact (hquick ratio hmove).resetVardiffStats

theorem DiffsKept.adjusted (h : s.DiffsKept cfg) (job : NotifiedJob) {quickdiff : Bool}
    (hfits : quickdiff = false → s.MoveFits cfg true) :
    (s.adjusted cfg job quickdiff).DiffsKept cfg := by
  have hvardiff : (if quickdiff then s else s.updateVardiff cfg id true).DiffsKept cfg := by
    split
    · exact h
    · next hquick =>
      have hmove := hfits (Bool.eq_false_iff.mpr hquick)
      apply h.updateVardiff hmove
      intro ratio hratio
      apply h.quickened
      rw [MoveFits, hratio] at hmove
      exact hmove
  unfold ClientState.adjusted
  generalize (if quickdiff then s else s.updateVardiff cfg id true) = s' at hvardiff
  dsimp only
  split
  · next hlow =>
    rw [Bool.and_eq_true, decide_eq_true_iff] at hlow
    have hpower : IsPowerOfTwo s'.overrideVardiffMin := by
      refine hvardiff.poolMin.resolve_left fun hzero => ?_
      rw [hzero] at hlow
      exact Nat.not_lt_zero _ hlow.2
    refine hvardiff.of_sameTables ?_ rfl rfl ?_
    · exact ⟨rfl, rfl, rfl, rfl, rfl⟩
    · intro hsubscribed
      exact (hvardiff.current hsubscribed).of_le hpower (UInt64.le_of_lt hlow.2)
  · exact hvardiff

/-- What a notify leaves as it is before it sends. -/
theorem subscribed_adjusted (s : ClientState) (job : NotifiedJob) (quickdiff : Bool) :
    (s.adjusted cfg job quickdiff).m.subscribed = s.m.subscribed := by
  have hvardiff : (if quickdiff then s else s.updateVardiff cfg id true).m.subscribed =
      s.m.subscribed := by
    split
    · rfl
    · unfold ClientState.updateVardiff
      split <;> rfl
  rw [← hvardiff]
  unfold ClientState.adjusted
  generalize (if quickdiff then s else s.updateVardiff cfg id true) = s'
  dsimp only
  split <;> rfl

/-- The minimum of the pool holds for its jobs. -/
theorem overrideVardiffMin_le_adjusted (s : ClientState) {job : NotifiedJob} {quickdiff : Bool}
    (hdatum : job.isDatumJob = true) :
    (s.adjusted cfg job quickdiff).overrideVardiffMin ≤
      (s.adjusted cfg job quickdiff).m.currentDiff := by
  unfold ClientState.adjusted
  generalize (if quickdiff then s else s.updateVardiff cfg id true) = s'
  dsimp only
  split
  · exact UInt64.le_refl _
  · next hhigh =>
    rw [hdatum, Bool.true_and, decide_eq_true_iff] at hhigh
    exact UInt64.not_lt.mp hhigh

/-! ## Announcing -/

theorem sendMiningSetDifficulty_of_fits (hzero : s.m.currentDiff ≠ 0)
    (hfits : s.Fits (setDifficultyText s.m.currentDiff)) :
    s.sendMiningSetDifficulty cfg =
      { s.send (setDifficultyText s.m.currentDiff) with
        m := { s.m with lastSentDiff := s.m.currentDiff }
        ledger := .announced s.m.currentDiff :: s.ledger } := by
  unfold ClientState.sendMiningSetDifficulty
  rw [if_neg hzero]
  dsimp only
  rw [if_pos hfits]

theorem sendMiningSetDifficulty_of_full (hzero : s.m.currentDiff ≠ 0)
    (hfull : ¬ s.Fits (setDifficultyText s.m.currentDiff)) :
    s.sendMiningSetDifficulty cfg =
      { s.send (setDifficultyText s.m.currentDiff) with
        m := { s.m with lastSentDiff := s.m.currentDiff } } := by
  unfold ClientState.sendMiningSetDifficulty
  rw [if_neg hzero]
  dsimp only
  rw [if_neg hfull]
  rfl

theorem DiffsKept.sendMiningSetDifficulty (h : s.DiffsKept cfg)
    (hsubscribed : s.m.subscribed = true) (hfits : s.Fits (setDifficultyText s.m.currentDiff)) :
    (s.sendMiningSetDifficulty cfg).DiffsKept cfg := by
  rw [sendMiningSetDifficulty_of_fits (h.current hsubscribed).ne_zero hfits]
  constructor
  · exact h.current
  · exact h.current
  · intro _
    exact List.mem_cons_self
  · intro key isBlake2b hkind
    obtain ⟨htarget, hannounced⟩ := h.targets key isBlake2b hkind
    exact ⟨htarget, List.mem_cons_of_mem _ hannounced⟩
  · exact h.unnotified
  · intro hnot
    exact absurd (hsubscribed.symm.trans hnot) (by decide)
  · exact h.forcedMin
  · exact h.poolMin
  · exact h.credits

theorem diffAt_noteTarget (m : MinerDiffs) (job : NotifiedJob) (quickdiff : Bool)
    (key : Option (Fin 256)) : (m.noteTarget job quickdiff).diffAt key =
      if noteKey job.globalIndex quickdiff = key then m.lastSentDiff else m.diffAt key := by
  cases quickdiff <;> cases key <;>
    simp [MinerDiffs.noteTarget, noteKey, MinerDiffs.diffAt, Function.update_apply, eq_comm]

theorem targetAt_noteTarget (m : MinerDiffs) (job : NotifiedJob) (quickdiff : Bool)
    (key : Option (Fin 256)) : (m.noteTarget job quickdiff).targetAt key =
      if noteKey job.globalIndex quickdiff = key then shareTarget job.isBlake2b m.lastSentDiff
      else m.targetAt key := by
  cases quickdiff <;> cases key <;>
    simp [MinerDiffs.noteTarget, noteKey, MinerDiffs.targetAt, Function.update_apply, eq_comm]

/-- The target is stored under the difficulty that was sent last. -/
theorem DiffsKept.note (h : s.DiffsKept cfg) (hsubscribed : s.m.subscribed = true)
    (job : NotifiedJob) (quickdiff : Bool) (poolMin : UInt64) :
    DiffsKept cfg { s with
      m := s.m.noteTarget job quickdiff
      ledger := .notified job.globalIndex job.isBlake2b quickdiff poolMin :: s.ledger } := by
  have hsame : (s.m.noteTarget job quickdiff).subscribed = s.m.subscribed ∧
      (s.m.noteTarget job quickdiff).currentDiff = s.m.currentDiff ∧
      (s.m.noteTarget job quickdiff).lastSentDiff = s.m.lastSentDiff ∧
      (s.m.noteTarget job quickdiff).forcedHighMinDiff = s.m.forcedHighMinDiff := by
    unfold MinerDiffs.noteTarget
    dsimp only
    split <;> exact ⟨rfl, rfl, rfl, rfl⟩
  obtain ⟨hsub, hcurrent, hlast, hforced⟩ := hsame
  constructor <;> dsimp only
  · rw [hsub, hcurrent, hforced]
    exact h.current
  · rw [hsub, hlast, hforced]
    exact h.lastSent
  · intro _
    rw [hlast]
    exact List.mem_cons_of_mem _ (h.announced hsubscribed)
  · intro key isBlake2b hkind
    rw [diffAt_noteTarget, targetAt_noteTarget]
    unfold kindAt at hkind
    by_cases hkey : noteKey job.globalIndex quickdiff = key
    · rw [if_pos hkey, Option.some.injEq] at hkind
      rw [if_pos hkey, if_pos hkey, hkind]
      exact ⟨rfl, List.mem_cons_of_mem _ (h.announced hsubscribed)⟩
    · rw [if_neg hkey] at hkind
      obtain ⟨htarget, hannounced⟩ := h.targets key isBlake2b hkind
      rw [if_neg hkey, if_neg hkey]
      exact ⟨htarget, List.mem_cons_of_mem _ hannounced⟩
  · intro key hkind
    unfold kindAt at hkind
    by_cases hkey : noteKey job.globalIndex quickdiff = key
    · rw [if_pos hkey] at hkind
      cases hkind
    · rw [if_neg hkey] at hkind
      rw [targetAt_noteTarget, if_neg hkey]
      exact h.unnotified key hkind
  · intro hnot
    rw [hsub, hsubscribed] at hnot
    cases hnot
  · rw [hforced]
    exact h.forcedMin
  · exact h.poolMin
  · exact h.credits

/-- Before the target is stored, the difficulty is the one sent last. -/
theorem DiffsKept.announcing (h : s.DiffsKept cfg) (hsubscribed : s.m.subscribed = true)
    {job : NotifiedJob} {quickdiff : Bool} (hmove : quickdiff = false → s.MoveFits cfg true)
    (hfits : (s.adjusted cfg job quickdiff).AnnounceFits) :
    (s.announced cfg job quickdiff).DiffsKept cfg ∧
    (s.announced cfg job quickdiff).MeetsPoolMin := by
  have hadjusted := h.adjusted job hmove
  have hsub : (s.adjusted cfg job quickdiff).m.subscribed = true :=
    (subscribed_adjusted s job quickdiff).trans hsubscribed
  have hpool : job.isDatumJob = true → (s.adjusted cfg job quickdiff).overrideVardiffMin ≤
      (s.adjusted cfg job quickdiff).m.currentDiff := overrideVardiffMin_le_adjusted s
  unfold ClientState.announced
  generalize s.adjusted cfg job quickdiff = mid at hadjusted hsub hpool hfits
  have hsent : ∃ mid', (if mid.m.lastSentDiff ≠ mid.m.currentDiff then
        mid.sendMiningSetDifficulty cfg else mid) = mid' ∧ mid'.DiffsKept cfg ∧
      mid'.m.subscribed = true ∧ mid'.m.lastSentDiff = mid'.m.currentDiff ∧
        mid'.m.currentDiff = mid.m.currentDiff ∧
          mid'.overrideVardiffMin = mid.overrideVardiffMin := by
    by_cases hdiff : mid.m.lastSentDiff = mid.m.currentDiff
    · exact ⟨mid, if_neg (not_not_intro hdiff), hadjusted, hsub, hdiff, rfl, rfl⟩
    · refine ⟨_, if_pos hdiff, hadjusted.sendMiningSetDifficulty hsub (hfits hdiff), ?_⟩
      rw [sendMiningSetDifficulty_of_fits (hadjusted.current hsub).ne_zero (hfits hdiff)]
      exact ⟨hsub, rfl, rfl, rfl⟩
  obtain ⟨mid', hmid', hkept, hsub', hlast, hcurrent, hmin⟩ := hsent
  dsimp only
  rw [hmid']
  refine ⟨hkept.note hsub' job quickdiff _, ?_⟩
  have hsame : (mid'.m.noteTarget job quickdiff).currentDiff = mid'.m.currentDiff ∧
      (mid'.m.noteTarget job quickdiff).lastSentDiff = mid'.m.lastSentDiff := by
    unfold MinerDiffs.noteTarget
    dsimp only
    split <;> exact ⟨rfl, rfl⟩
  unfold MeetsPoolMin
  dsimp only
  rw [hsame.1, hsame.2, hlast, hcurrent]
  split
  · next hdatum =>
    rw [hmin]
    exact ⟨hpool hdatum, hpool hdatum⟩
  · exact ⟨UInt64.zero_le, UInt64.zero_le⟩

theorem DiffsKept.sendMiningNotify (h : s.DiffsKept cfg) (hsubscribed : s.m.subscribed = true)
    (hpool : s.MeetsPoolMin) {clean quickdiff newBlock : Bool}
    {userSiaCoinb1 : Option (List UInt8)}
    (hmove : (quickdiff && !newBlock) = false → s.MoveFits cfg true)
    (hfits : s.NotifyAnnounces cfg (quickdiff && !newBlock)) :
    (s.sendMiningNotify cfg clean quickdiff newBlock userSiaCoinb1).DiffsKept cfg ∧
      (s.sendMiningNotify cfg clean quickdiff newBlock userSiaCoinb1).MeetsPoolMin := by
  unfold ClientState.sendMiningNotify
  cases hjob : s.curStratumJob with
  | none => exact ⟨h, hpool⟩
  | some job =>
    obtain ⟨hkept, hmeets⟩ := h.announcing hsubscribed hmove (hfits job hjob)
    exact ⟨hkept.sendPieces _ _, hmeets⟩

/-! ## Crediting -/

theorem diffAt_shareKey (s : ClientState) (share : ShareCall) :
    s.m.diffAt (shareKey share) = s.jobDiff share := by
  unfold shareKey noteKey jobDiff
  split <;> rfl

theorem targetAt_shareKey (s : ClientState) (share : ShareCall) :
    s.m.targetAt (shareKey share) = s.shareLimit share := by
  unfold shareKey noteKey shareLimit
  split <;> rfl

/-- A share that is accepted is for a target that came with a notify, unless its hash is
    zero. -/
theorem DiffsKept.notified_of_accepts (h : s.DiffsKept cfg) {share : ShareCall}
    (haccepts : s.accepts share = true)
    (hzero : share.shareHash.bytes = List.replicate 32 0 →
      kindAt (shareKey share) s.ledger ≠ none) :
    ∃ isBlake2b, kindAt (shareKey share) s.ledger = some isBlake2b := by
  apply Option.ne_none_iff_exists'.mp
  intro hnone
  apply hzero _ hnone
  apply eq_zero_of_compareHashes_zero share.shareHash.length_eq
  rw [← h.unnotified _ hnone, targetAt_shareKey]
  unfold accepts at haccepts
  rw [Bool.and_eq_true, decide_eq_true_iff] at haccepts
  exact haccepts.2

theorem DiffsKept.credit (h : s.DiffsKept cfg) {share : ShareCall} {isBlake2b : Bool}
    (hkind : kindAt (shareKey share) s.ledger = some isBlake2b) :
    (s.credit share).DiffsKept cfg ∧ (s.credit share).m.subscribed = true := by
  have hsubscribed : s.m.subscribed = true := by
    rw [← Bool.not_eq_false]
    intro hnot
    rw [(h.unsubscribed hnot).1] at hkind
    cases hkind
  refine ⟨?_, hsubscribed⟩
  constructor
  · exact h.current
  · exact h.lastSent
  · intro _
    exact List.mem_cons_of_mem _ (h.announced hsubscribed)
  · intro key kind hkey
    obtain ⟨htarget, hannounced⟩ := h.targets key kind hkey
    exact ⟨htarget, List.mem_cons_of_mem _ hannounced⟩
  · exact h.unnotified
  · intro hnot
    exact absurd (hsubscribed.symm.trans hnot) (by decide)
  · exact h.forcedMin
  · exact h.poolMin
  · obtain ⟨htarget, hannounced⟩ := h.targets _ _ hkind
    rw [diffAt_shareKey] at htarget hannounced
    rw [targetAt_shareKey] at htarget
    exact ⟨⟨hannounced, isBlake2b, htarget⟩, h.credits⟩

/-! ## Subscribing -/

/-- The fingerprint may set a minimum of the miner's own. -/
theorem fingerprintByUA_cases (m : MinerDiffs) (useragent : List UInt8) :
    ∃ selection, m.fingerprintByUA useragent = { m with coinbaseSelection := selection } ∨
      m.fingerprintByUA useragent =
        { m with currentDiff := 524288, forcedHighMinDiff := 524288, coinbaseSelection := 1 } := by
  unfold MinerDiffs.fingerprintByUA
  dsimp only
  split
  · exact ⟨_, Or.inl rfl⟩
  split
  · exact ⟨_, Or.inl rfl⟩
  split
  · exact ⟨_, Or.inl rfl⟩
  split
  · exact ⟨_, Or.inl rfl⟩
  split
  · exact ⟨_, Or.inl rfl⟩
  split
  · exact ⟨_, Or.inl rfl⟩
  split
  · exact ⟨1, Or.inr rfl⟩
  split
  · exact ⟨_, Or.inl rfl⟩
  · exact ⟨m.coinbaseSelection, Or.inl rfl⟩

/-- The difficulty a miner starts with is admitted. -/
theorem admits_beginSubscribe (cfg : VardiffConfig) (fingerprintMiners : Bool) (m : MinerDiffs)
    (hforced : m.forcedHighMinDiff = 0) (useragent : Option (List UInt8)) :
    ∃ diff forcedMin selection, m.beginSubscribe cfg fingerprintMiners useragent =
        { m with
          currentDiff := diff
          forcedHighMinDiff := forcedMin
          coinbaseSelection := selection } ∧
      cfg.Admits forcedMin diff ∧ (forcedMin = 0 ∨ IsPowerOfTwo forcedMin) := by
  have hmin : cfg.Admits 0 cfg.vardiffMin :=
    ⟨cfg.min_powerOfTwo, UInt64.le_refl _, UInt64.zero_le⟩
  have hnice : IsPowerOfTwo 524288 := ⟨19, rfl⟩
  unfold MinerDiffs.beginSubscribe
  dsimp only
  split
  · obtain ⟨selection, hplain | hforce⟩ := fingerprintByUA_cases
      { m with currentDiff := cfg.vardiffMin, coinbaseSelection := 2 }
      ((useragent.map userAgent).getD [])
    · rw [hplain]
      split
      · exact ⟨_, 0, selection, by rw [← hforced], hmin, Or.inl rfl⟩
      · exact ⟨_, 0, selection, by rw [← hforced], hmin, Or.inl rfl⟩
    · rw [hforce]
      split
      · next hlow =>
        refine ⟨_, 524288, 1, rfl, ⟨cfg.min_powerOfTwo, UInt64.le_refl _, ?_⟩, Or.inr hnice⟩
        exact UInt64.le_of_lt hlow
      · next hhigh =>
        refine ⟨_, 524288, 1, rfl, ⟨hnice, UInt64.not_lt.mp hhigh, UInt64.le_refl _⟩,
          Or.inr hnice⟩
  · exact ⟨_, 0, 2, by rw [← hforced], hmin, Or.inl rfl⟩

theorem DiffsKept.subscribed (h : s.DiffsKept cfg) (hnot : s.m.subscribed = false) {id : RequestId}
    {sid : UInt32} {useragent : Option (List UInt8)}
    (hfits : (s.subscribing cfg fingerprintMiners id sid useragent).Fits (setDifficultyText
      (s.subscribing cfg fingerprintMiners id sid useragent).m.currentDiff)) :
    ((s.subscribing cfg fingerprintMiners id sid useragent).subscribed cfg).DiffsKept cfg ∧
      ((s.subscribing cfg fingerprintMiners id sid useragent).subscribed cfg).MeetsPoolMin := by
  obtain ⟨hledger, hforced⟩ := h.unsubscribed hnot
  obtain ⟨diff, forcedMin, selection, hbegin, hadmits, hpower⟩ :=
    admits_beginSubscribe cfg fingerprintMiners s.m hforced useragent
  unfold ClientState.subscribing at hfits ⊢
  rw [hbegin] at hfits ⊢
  unfold ClientState.subscribed
  rw [sendMiningSetDifficulty_of_fits hadmits.ne_zero hfits]
  refine ⟨?_, trivial⟩
  constructor
  · exact fun _ => hadmits
  · exact fun _ => hadmits
  · exact fun _ => List.mem_cons_self
  · intro key isBlake2b hkind
    change kindAt key s.ledger = some isBlake2b at hkind
    rw [hledger] at hkind
    cases hkind
  · intro key _
    exact h.unnotified key (by rw [hledger]; rfl)
  · intro hcontra
    cases hcontra
  · exact hpower
  · exact h.poolMin
  · exact h.credits

/-! ## Runs -/

theorem MeetsPoolMin.congr (h : s.MeetsPoolMin) {s' : ClientState} (hm : s'.m = s.m)
    (hledger : s'.ledger = s.ledger) : s'.MeetsPoolMin := by
  unfold MeetsPoolMin at h ⊢
  rw [hm, hledger]
  exact h

theorem diffsKept_clientMiningSubscribe (h : s.DiffsKept cfg) (hpool : s.MeetsPoolMin)
    {id : RequestId} {sid : UInt32} {useragent userSia : Option (List UInt8)}
    (hword : s.StaysInWord cfg fingerprintMiners (.subscribe id sid useragent userSia))
    (hfits : s.Announces cfg fingerprintMiners (.subscribe id sid useragent userSia)) :
    (s.clientMiningSubscribe cfg fingerprintMiners id sid useragent userSia).DiffsKept cfg ∧
      (s.clientMiningSubscribe cfg fingerprintMiners id sid useragent userSia).MeetsPoolMin := by
  unfold clientMiningSubscribe
  split
  · exact ⟨h, hpool⟩
  · next hnot =>
    have hfalse := Bool.eq_false_iff.mpr hnot
    obtain ⟨hroom, hnotify⟩ := hfits hfalse
    obtain ⟨hkept, hmeets⟩ := h.subscribed hfalse hroom
    have hmove := hword hfalse
    have hsubscribed : ((s.subscribing cfg fingerprintMiners id sid useragent).subscribed
      cfg).m.subscribed = true := rfl
    dsimp only
    generalize (s.subscribing cfg fingerprintMiners id sid useragent).subscribed cfg = mid at *
    obtain ⟨hnotified, hmin⟩ :
        (mid.sendMiningNotify cfg true false false userSia).DiffsKept cfg ∧
        (mid.sendMiningNotify cfg true false false userSia).MeetsPoolMin :=
      hkept.sendMiningNotify hsubscribed hmeets (fun _ => hmove) hnotify
    exact ⟨hnotified.resetVardiffStats, hmin⟩

/-- Behind a credit, only the notify of a quick change is held to the minimum. -/
theorem diffsKept_clientMiningSubmit (h : s.DiffsKept cfg) (hpool : s.MeetsPoolMin)
    {share : ShareCall} {userSia : Option (List UInt8)}
    (hword : s.StaysInWord cfg fingerprintMiners (.submit share userSia))
    (hfits : s.Announces cfg fingerprintMiners (.submit share userSia)) :
    (s.clientMiningSubmit cfg share userSia).DiffsKept cfg ∧
      (s.clientMiningSubmit cfg share userSia).MeetsPoolMin := by
  rcases s.clientMiningSubmit_cases cfg share userSia with
    ⟨haccepts, hcredit⟩ | ⟨error, herror⟩
  · obtain ⟨hzero, hnotify⟩ := hfits haccepts
    obtain ⟨isBlake2b, hkind⟩ := h.notified_of_accepts haccepts hzero
    obtain ⟨hkept, hsubscribed⟩ := h.credit hkind
    have hmove := hword haccepts
    have hquick : ∀ ratio, vardiffMove cfg (s.credit share).m false (s.credit share).loopTsms =
        .quick ratio → (((s.credit share).quickened ratio).sendMiningNotify cfg true true false
          userSia).DiffsKept cfg ∧
            (((s.credit share).quickened ratio).sendMiningNotify cfg true true
          false userSia).MeetsPoolMin := by
      intro ratio hratio
      unfold MoveFits at hmove
      rw [hratio] at hmove
      apply (hkept.quickened hmove).sendMiningNotify hsubscribed trivial
      · intro hcontra
        cases hcontra
      · exact hnotify ratio hratio
    rw [hcredit]
    refine ⟨hkept.updateVardiff hmove fun ratio hratio => (hquick ratio hratio).1, ?_⟩
    unfold ClientState.updateVardiff
    split
    · trivial
    · trivial
    · trivial
    · next ratio hratio => exact (hquick ratio hratio).2
  · rw [herror]
    exact ⟨h.sendPieces _ _, hpool.congr rfl rfl⟩

/-- One step keeps the difficulties. -/
theorem diffsKept_step (h : s.DiffsKept cfg ∧ s.MeetsPoolMin) {event : ClientEvent}
    (hword : s.StaysInWord cfg fingerprintMiners event)
    (hfits : s.Announces cfg fingerprintMiners event) {s' : ClientState}
    (hstep : s.step cfg fingerprintMiners event = some s') :
    s'.DiffsKept cfg ∧ s'.MeetsPoolMin := by
  obtain ⟨hkept, hpool⟩ := h
  unfold step at hstep
  split at hstep
  · cases hstep
  cases event with
  | subscribe id sid useragent userSia =>
    cases hstep
    exact diffsKept_clientMiningSubscribe hkept hpool hword hfits
  | authorize id refused =>
    cases hstep
    exact ⟨hkept.sendPieces _ _, hpool.congr rfl rfl⟩
  | configure id names maskText =>
    cases hstep
    unfold clientMiningConfigure
    dsimp only
    split
    · exact ⟨(hkept.sendPieces _ _).sendPieces _ _, hpool.congr rfl rfl⟩
    · exact ⟨hkept.sendPieces _ _, hpool.congr rfl rfl⟩
  | submit share userSia =>
    cases hstep
    exact diffsKept_clientMiningSubmit hkept hpool hword hfits
  | unknownMethod id =>
    cases hstep
    exact ⟨hkept.sendPieces _ _, hpool.congr rfl rfl⟩
  | notify clean newBlock userSia =>
    simp only [ClientState.handle] at hstep
    split at hstep
    · next hsubscribed =>
      cases hstep
      exact hkept.sendMiningNotify hsubscribed hpool (fun _ => hword) hfits
    · cases hstep
  | newJob job =>
    cases hstep
    exact ⟨hkept.congr rfl rfl rfl, hpool.congr rfl rfl⟩
  | coinbaseReady ready =>
    cases hstep
    exact ⟨hkept.congr rfl rfl rfl, hpool.congr rfl rfl⟩
  | elapse tsms =>
    cases hstep
    exact ⟨hkept.congr rfl rfl rfl, hpool.congr rfl rfl⟩
  | poolMin diff powerOfTwo =>
    cases hstep
    refine ⟨hkept.of_poolMin powerOfTwo, hpool.congr rfl rfl⟩
  | transmit count =>
    simp only [ClientState.handle] at hstep
    split at hstep
    · cases hstep
      exact ⟨hkept.congr rfl rfl rfl, hpool.congr rfl rfl⟩
    · cases hstep
  | close =>
    cases hstep
    exact ⟨hkept.congr rfl rfl rfl, hpool.congr rfl rfl⟩

theorem diffsKept_of_isNew (h : s.IsNew) : s.DiffsKept cfg ∧ s.MeetsPoolMin := by
  have hnot : s.m.subscribed ≠ true := Bool.eq_false_iff.mp h.not_subscribed
  have hledger := h.ledger_eq
  constructor
  · constructor
    · exact fun hsubscribed => absurd hsubscribed hnot
    · exact fun hsubscribed => absurd hsubscribed hnot
    · exact fun hsubscribed => absurd hsubscribed hnot
    · intro key isBlake2b hkind
      rw [hledger] at hkind
      cases hkind
    · intro key _
      cases key with
      | none => exact h.quickdiffTarget_eq
      | some slot => exact h.targets_eq slot
    · exact fun _ => ⟨hledger, h.forcedMin_eq⟩
    · exact Or.inl h.forcedMin_eq
    · exact h.poolMin_admitted
    · rw [hledger]
      trivial
  · rw [MeetsPoolMin, hledger]
    trivial

theorem DiffsKept.consistent (h : s.DiffsKept cfg) (hpool : s.MeetsPoolMin) :
    s.DiffsConsistent cfg where
  current := h.current
  lastSent := h.lastSent
  poolMin := hpool
  targets key isBlake2b hkind := (h.targets key isBlake2b hkind).1
  credits := h.credits

/-- As long as every difficulty fits into the write buffer, the difficulties of a client
    are consistent. -/
theorem diffsConsistent_of_announces (hrun : (clientSystem cfg fingerprintMiners).ReachedBy
    (fun s event => s.StaysInWord cfg fingerprintMiners event ∧
      s.Announces cfg fingerprintMiners event) IsNew s) : s.DiffsConsistent cfg := by
  have hkept : s.DiffsKept cfg ∧ s.MeetsPoolMin := hrun.invariant
    (fun s hnew => diffsKept_of_isNew hnew)
    (fun s event s' h hcond hstep => diffsKept_step h hcond.1 hcond.2 hstep)
  exact hkept.1.consistent hkept.2

end ClientState

/-! ## A difficulty that is left out -/

/-- A client that has just connected. -/
def newClient : ClientState where
  m := {
    subscribed := false
    currentDiff := 0
    lastSentDiff := 0
    stratumJobDiffs := fun _ => 0
    stratumJobTargets := fun _ => noTarget
    coinbaseSelection := 0
    shareCountSinceSnap := 0
    shareDiffSinceSnap := 0
    shareSnapTsms := 0
    quickdiffActive := false
    quickdiffValue := 0
    quickdiffTarget := noTarget
    forcedHighMinDiff := 0 }
  box := { sent := [], queued := [] }
  built := []
  ledger := []
  curStratumJob := some { siaJob with isDatumJob := true }
  loopTsms := 0
  fullCoinbaseReady := false
  overrideVardiffMin := 0
  closed := false

theorem newClient_isNew : newClient.IsNew := by
  constructor <;> first | rfl | exact Or.inl rfl | exact fun _ => rfl

/-- The client, subscribed. -/
def subscribedClient : ClientState :=
  newClient.clientMiningSubscribe defaultVardiff true (.integer 1) 7 none none

/-- A share that passes the checks other than the one for the target. -/
def zeroShare (slot : Fin 256) : ShareCall where
  id := .integer 1
  jobIndex := slot
  quickdiff := false
  shareHash := noTarget
  refusedBefore := none
  refusedBehind := none

set_option maxRecDepth 8000 in
theorem fits_newClient : (newClient.subscribing defaultVardiff true (.integer 1) 7 none).Fits
    (setDifficultyText 1024) := by
  decide

theorem subscribedClient_ledger :
    subscribedClient.ledger = [.notified 0 true false 0, .announced 1024] := by
  unfold subscribedClient ClientState.clientMiningSubscribe ClientState.subscribed
  rw [ClientState.sendMiningSetDifficulty_of_fits (by decide) fits_newClient]
  rfl

theorem stepSubscribe_newClient : (clientSystem defaultVardiff true).step newClient
    (.subscribe (.integer 1) 7 none none) = some subscribedClient := rfl

theorem subscribe_staysInWord :
    newClient.StaysInWord defaultVardiff true (.subscribe (.integer 1) 7 none none) :=
  fun _ => trivial

theorem subscribe_announces :
    newClient.Announces defaultVardiff true (.subscribe (.integer 1) 7 none none) := by
  intro _
  refine ⟨fits_newClient, ?_⟩
  intro job hjob
  cases hjob
  intro hdiff
  exact absurd rfl hdiff

/-- The client, credited with a share. -/
def creditedClient : ClientState :=
  subscribedClient.clientMiningSubmit defaultVardiff (zeroShare 0) none

theorem submit_announces :
    subscribedClient.Announces defaultVardiff true (.submit (zeroShare 0) none) := by
  intro _
  constructor
  · intro _
    rw [subscribedClient_ledger]
    decide
  · intro credited ratio hquick
    cases hquick

theorem creditedClient_consistent :
    (clientSystem defaultVardiff true).ReachedBy
      (fun s event => s.StaysInWord defaultVardiff true event ∧
        s.Announces defaultVardiff true event) ClientState.IsNew creditedClient ∧
    creditedClient.DiffsConsistent defaultVardiff := by
  have hrun : (clientSystem defaultVardiff true).ReachedBy
      (fun s event => s.StaysInWord defaultVardiff true event ∧
        s.Announces defaultVardiff true event) ClientState.IsNew creditedClient := by
    refine .step (a := .submit (zeroShare 0) none) (s := subscribedClient) ?_ ?_ rfl
    · exact .step (.start newClient_isNew) ⟨subscribe_staysInWord, subscribe_announces⟩
        stepSubscribe_newClient
    · exact ⟨fun _ => trivial, submit_announces⟩
  exact ⟨hrun, ClientState.diffsConsistent_of_announces hrun⟩

/-- A client that does not read lets replies pile up. -/
theorem reachedBy_replies {start : ClientState → Prop} {s : ClientState}
    (hrun : (clientSystem defaultVardiff true).ReachedBy
      (fun s event => s.StaysInWord defaultVardiff true event) start s)
    (hopen : s.closed = false) (hidle : s.box.queued = []) {replies : Nat}
    (hroom : 36 * replies < clientBuffer) :
    ∃ box built, box.queued.length = 36 * replies ∧
      (clientSystem defaultVardiff true).ReachedBy
        (fun s event => s.StaysInWord defaultVardiff true event) start
        { s with box, built } := by
  induction replies with
  | zero => exact ⟨s.box, s.built, by rw [hidle]; rfl, hrun⟩
  | succ replies ih =>
    obtain ⟨box, built, hlen, hwaiting⟩ := ih (by omega)
    have hreply : oneReply.length = 36 := by decide
    have hfits : box.queued.length + [oneReply].flatten.length < clientBuffer := by
      rw [List.flatten_singleton, hreply]
      omega
    have hbox : (box.appendAll clientBuffer [oneReply]).queued.length = 36 * (replies + 1) := by
      rw [Outbox.appendAll_of_fits hfits, List.flatten_singleton, List.length_append, hreply]
      omega
    refine ⟨_, built ++ [oneReply], hbox,
      hwaiting.step (a := .authorize (.integer 1) false) trivial ?_⟩
    simp only [clientSystem, ClientState.step, ClientState.handle, hopen]
    rfl

/-- A notify raises the difficulty to the minimum of the pool, but does not announce it. -/
theorem announced_of_full {s : ClientState} {job : NotifiedJob}
    (hkeep : vardiffMove defaultVardiff s.m true s.loopTsms = .keep)
    (hdatum : job.isDatumJob = true) (hlow : s.m.currentDiff < s.overrideVardiffMin)
    (hsent : s.m.lastSentDiff = s.m.currentDiff)
    (hfull : ¬ s.Fits (setDifficultyText s.overrideVardiffMin)) :
    ∃ mid, s.announced defaultVardiff job false = mid ∧ mid.closed = s.closed ∧
      mid.loopTsms = s.loopTsms ∧
      mid.ledger = .notified job.globalIndex job.isBlake2b false s.overrideVardiffMin ::
        s.ledger ∧
      mid.m.lastSentDiff = mid.m.currentDiff ∧
      mid.m.shareCountSinceSnap = s.m.shareCountSinceSnap ∧
      mid.m.stratumJobDiffs job.globalIndex = s.overrideVardiffMin := by
  have hadjusted : s.adjusted defaultVardiff job false =
      { s with m := { s.m with currentDiff := s.overrideVardiffMin } } := by
    unfold ClientState.adjusted ClientState.updateVardiff
    rw [hkeep]
    dsimp only
    rw [if_pos]
    · rfl
    · simp [hdatum, hlow]
  have hzero : s.overrideVardiffMin ≠ 0 := by
    intro hzero
    rw [hzero] at hlow
    exact Nat.not_lt_zero _ hlow
  have hdiff : s.m.lastSentDiff ≠ s.overrideVardiffMin := by
    rw [hsent]
    exact UInt64.ne_of_lt hlow
  unfold ClientState.announced
  rw [hadjusted]
  dsimp only
  rw [if_pos hdiff]
  rw [ClientState.sendMiningSetDifficulty_of_full
    (s := { s with m := { s.m with currentDiff := s.overrideVardiffMin } }) hzero hfull,
    if_pos hdatum]
  exact ⟨_, rfl, rfl, rfl, rfl, rfl, rfl, Function.update_self _ _ _⟩

/-- The share is credited, and the difficulty stays. -/
theorem clientMiningSubmit_zeroShare {s : ClientState} {slot : Fin 256}
    (hkeep : vardiffMove defaultVardiff (s.credit (zeroShare slot)).m false s.loopTsms = .keep) :
    s.clientMiningSubmit defaultVardiff (zeroShare slot) none = s.credit (zeroShare slot) := by
  have hlow : ¬ compareHashes (zeroShare slot).shareHash.bytes
      (s.shareLimit (zeroShare slot)).bytes > 0 :=
    Int.not_lt.mpr (compareHashes_zero_le 32 _)
  have hmove : vardiffMove defaultVardiff (s.credit (zeroShare slot)).m false
      (s.credit (zeroShare slot)).loopTsms = .keep := hkeep
  show (if _ > 0 then _ else ClientState.updateVardiff _ (s.credit (zeroShare slot)) _ false) = _
  rw [if_neg hlow]
  unfold ClientState.updateVardiff
  rw [hmove]

/-- A share for a target that was never announced. -/
theorem exists_unannounced_of_full {start : ClientState → Prop} {s : ClientState}
    {job : NotifiedJob}
    (hrun : (clientSystem defaultVardiff true).ReachedBy
      (fun s event => s.StaysInWord defaultVardiff true event) start s)
    (hopen : s.closed = false) (hsubscribed : s.m.subscribed = true)
    (hjob : s.curStratumJob = some job) (hdatum : job.isDatumJob = true)
    (hkeep : vardiffMove defaultVardiff s.m true s.loopTsms = .keep)
    (hcount : s.m.shareCountSinceSnap = 0) (hsent : s.m.lastSentDiff = s.m.currentDiff)
    (hlow : s.m.currentDiff < s.overrideVardiffMin)
    (hfull : ¬ s.Fits (setDifficultyText s.overrideVardiffMin))
    (hnever : .announced s.overrideVardiffMin ∉ s.ledger) :
    ∃ s', (clientSystem defaultVardiff true).ReachedBy
      (fun s event => s.StaysInWord defaultVardiff true event) start s' ∧
      ¬ s'.DiffsConsistent defaultVardiff := by
  obtain ⟨mid, hannounced, hclosed, htsms, hledger, hlast, hshares, hdiff⟩ :=
    announced_of_full hkeep hdatum hlow hsent hfull
  have hnotify : s.StaysInWord defaultVardiff true (.notify false false none) := by
    show ClientState.NoOverflow s.m _
    rw [hkeep]
    trivial
  obtain ⟨pieces, messages, hsend⟩ : ∃ pieces messages,
      s.sendMiningNotify defaultVardiff false false false none =
        mid.sendPieces pieces messages := by
    unfold ClientState.sendMiningNotify
    rw [hjob]
    dsimp only
    rw [Bool.false_and, hannounced]
    exact ⟨_, _, rfl⟩
  have hstep : (clientSystem defaultVardiff true).step s (.notify false false none) =
      some (mid.sendPieces pieces messages) := by
    simp [clientSystem, ClientState.step, ClientState.handle, hopen, hsubscribed, hsend]
  have hnotified := hrun.step hnotify hstep
  have hmove : vardiffMove defaultVardiff ((mid.sendPieces pieces messages).credit
      (zeroShare job.globalIndex)).m false (mid.sendPieces pieces messages).loopTsms = .keep := by
    simp [vardiffMove, ClientState.credit, ClientState.send, ClientState.sendPieces, hlast,
      hshares, hcount, defaultVardiff]
  have hcredit : (mid.sendPieces pieces messages).StaysInWord defaultVardiff true
      (.submit (zeroShare job.globalIndex) none) := by
    intro _
    show ClientState.NoOverflow _ (vardiffMove _ _ _ (mid.sendPieces pieces messages).loopTsms)
    rw [hmove]
    trivial
  have hsubmit : (clientSystem defaultVardiff true).step (mid.sendPieces pieces messages)
      (.submit (zeroShare job.globalIndex) none) =
        some ((mid.sendPieces pieces messages).credit (zeroShare job.globalIndex)) := by
    have hopen' : (mid.sendPieces pieces messages).closed = false := hclosed.trans hopen
    simp [clientSystem, ClientState.step, ClientState.handle, hopen',
      clientMiningSubmit_zeroShare hmove]
  refine ⟨_, hnotified.step hcredit hsubmit, ?_⟩
  intro hconsistent
  have hcredits : CreditsAnnounced (.credited (mid.m.stratumJobDiffs job.globalIndex)
    (mid.m.stratumJobTargets job.globalIndex) :: mid.ledger) := hconsistent.credits
  obtain ⟨⟨hmem, -⟩, -⟩ := hcredits
  rw [hdiff, hledger] at hmem
  rcases List.mem_cons.mp hmem with hnot | hold
  · cases hnot
  · exact hnever hold

/-- The target of the share was never announced. -/
theorem exists_credit_unannounced : ∃ s,
    (clientSystem defaultVardiff true).ReachedBy
      (fun s event => s.StaysInWord defaultVardiff true event) ClientState.IsNew s ∧
    ¬ s.DiffsConsistent defaultVardiff := by
  have hsubscribed : (clientSystem defaultVardiff true).ReachedBy
      (fun s event => s.StaysInWord defaultVardiff true event) ClientState.IsNew subscribedClient :=
    .step (.start newClient_isNew) subscribe_staysInWord stepSubscribe_newClient
  have hread := hsubscribed.step (by trivial) (step_transmit rfl)
  obtain ⟨box, built, hlen, hwaiting⟩ := reachedBy_replies hread rfl
    (Outbox.queued_transmit_length _) (show 36 * 1393 < clientBuffer by decide)
  have hraised := hwaiting.step (a := ClientEvent.poolMin 65536 ⟨16, rfl⟩) (by trivial) rfl
  have hlow : (1024 : UInt64) < 65536 := by decide
  have hkeep : vardiffMove defaultVardiff subscribedClient.m true 0 = .keep := by
    have hm : subscribedClient.m.currentDiff = 1024 ∧ subscribedClient.m.lastSentDiff = 1024 ∧
        subscribedClient.m.shareCountSinceSnap = 0 ∧ subscribedClient.m.shareSnapTsms = 0 :=
      ⟨rfl, rfl, rfl, rfl⟩
    obtain ⟨hcurrent, hlast, hcount, hsnap⟩ := hm
    simp [vardiffMove, hcurrent, hlast, hcount, hsnap]
  refine exists_unannounced_of_full hraised rfl rfl rfl rfl hkeep rfl rfl hlow ?_ ?_
  · intro hfits
    have htext : (setDifficultyText 65536).length = 62 := by decide
    have hroom : box.queued.length + (setDifficultyText 65536).length < clientBuffer := hfits
    rw [hlen, htext] at hroom
    exact absurd hroom (by decide)
  · show .announced 65536 ∉ subscribedClient.ledger
    rw [subscribedClient_ledger]
    simp

end ChirpGateway
