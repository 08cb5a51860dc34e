import ChirpGateway.Stratum.ShareThread

/-!
# Crediting a share once

A clean-up prunes by `share_stale_seconds`, while shares for a job are accepted for
`work_update_seconds` longer: what is pruned in between can be accepted again. And
what shares are compared by is not the work that is hashed.
-/

namespace ChirpGateway

open Bytes Transition

namespace ThreadState

variable (decode : List UInt8 → Option (List UInt8)) (lotto : LottoConfig) (config : StaleConfig)
variable (sorter : Qsort.Sorter DupeItem)
variable (sha256 : List UInt8 → Hash32) (blake2b : List UInt8 → Hash32)
variable (s : ThreadState)

/-! ## Conditions on a step -/

/-- Where a call makes a clean-up prune, no share it finds is for a job that is
    stale for the clean-up and still accepted. -/
def NoGap (call : DupeCall) : Prop :=
  s.dupes.memory.IsFilledBy call →
    ((insert call.share s.dupes.memory.live).filter fun share =>
      call.env.isStale share = false).card
      < s.dupes.memory.capacity * 95 / 100 →
    ∀ share ∈ insert call.share s.dupes.memory.live, call.env.isStale share = true →
      s.stillAccepts config share.jobIndex = false

/-- Work that was credited before, for a job that is still accepted, is compared by
    what it was compared by. -/
def SameKey (work : SubmittedWork) (call : DupeCall) : Prop :=
  ∀ credit ∈ s.credited, s.stillAccepts config credit.share.jobIndex = true →
    credit.header = work.header sha256 blake2b → credit.share = call.share

/-- The clock does not go back, and no clean-up does harm. -/
def TableKept : ThreadEvent → Prop
  | .loop tsms => s.loopTsms ≤ tsms
  | .submit m params now => ∀ work,
      s.checkedShare decode lotto config sha256 blake2b m params = .ok work →
      s.dupes.memory.Harmless (work.dupeCall (s.dupeEnv config now)) ∧
        s.NoGap config (work.dupeCall (s.dupeEnv config now))
  | _ => True

/-- No submit has the same work compared in two ways. -/
def KeyKept : ThreadEvent → Prop
  | .submit m params now => ∀ work,
      s.checkedShare decode lotto config sha256 blake2b m params = .ok work →
      s.SameKey config sha256 blake2b work (work.dupeCall (s.dupeEnv config now))
  | _ => True

def WorkKept (event : ThreadEvent) : Prop :=
  s.TableKept decode lotto config sha256 blake2b event ∧
    s.KeyKept decode lotto config sha256 blake2b event

/-! ## What every run keeps -/

/-- The credits that count: those for jobs that are still accepted. -/
def openCredits : List Credit :=
  s.credited.filter fun credit => s.stillAccepts config credit.share.jobIndex

/-- What was accepted and could be again is in the table, once. -/
structure Kept : Prop where
  dupes : s.dupes.Sound
  remembered : ∀ credit ∈ s.openCredits config, credit.share ∈ s.dupes.memory.live
  once : ((s.openCredits config).map Credit.share).Nodup

variable {decode lotto config sorter sha256 blake2b s}
variable {s' : ThreadState}

theorem mem_openCredits {credit : Credit} : credit ∈ s.openCredits config ↔
    credit ∈ s.credited ∧ s.stillAccepts config credit.share.jobIndex = true :=
  List.mem_filter

/-- Where fewer credits count than before, what was kept is. -/
theorem Kept.of_sublist (h : s.Kept config) (hdupes : s'.dupes = s.dupes)
    (hcredits : (s'.openCredits config).Sublist (s.openCredits config)) : s'.Kept config where
  dupes := hdupes ▸ h.dupes
  remembered credit hcredit := by
    rw [hdupes]
    exact h.remembered credit (hcredits.subset hcredit)
  once := h.once.sublist (hcredits.map _)

/-- Credits stop to count with their jobs. -/
theorem openCredits_sublist (hcredited : s'.credited.Sublist s.credited)
    (haccepts : ∀ credit ∈ s'.credited, s'.stillAccepts config credit.share.jobIndex = true →
      s.stillAccepts config credit.share.jobIndex = true) :
    (s'.openCredits config).Sublist (s.openCredits config) := by
  have hsame : s'.openCredits config = (s'.credited.filter fun credit =>
      s.stillAccepts config credit.share.jobIndex).filter fun credit =>
        s'.stillAccepts config credit.share.jobIndex := by
    rw [List.filter_filter, openCredits]
    refine List.filter_congr fun credit hcredit => ?_
    cases haccept : s'.stillAccepts config credit.share.jobIndex with
    | false => rw [Bool.false_and]
    | true => rw [haccepts credit hcredit haccept]; rfl
  rw [hsame]
  exact List.filter_sublist.trans (hcredited.filter _)

theorem stillAccepts_putJob {slot other : Fin 256} {job : StratumJob} {newBlock : Bool}
    (hne : other ≠ slot)
    (h : (s.putJob slot job newBlock).stillAccepts config other = true) :
    s.stillAccepts config other = true := by
  unfold stillAccepts putJob at h
  unfold stillAccepts
  simp only [Function.update_of_ne hne] at h
  cases newBlock with
  | false => exact h
  | true =>
    rw [if_pos rfl] at h
    cases hjob : s.jobs other with
    | none =>
      rw [hjob] at h
      exact h
    | some old =>
      rw [hjob] at h
      exact absurd h Bool.false_ne_true

theorem openCredits_putJob_sublist (slot : Fin 256) (job : StratumJob) (newBlock : Bool) :
    ((s.putJob slot job newBlock).openCredits config).Sublist (s.openCredits config) := by
  refine openCredits_sublist List.filter_sublist ?_
  intro credit hcredit
  have hne : credit.share.jobIndex ≠ slot := of_decide_eq_true (List.mem_filter.mp hcredit).2
  exact stillAccepts_putJob hne

theorem openCredits_rewriteJob_sublist {slot : Fin 256} {job old : StratumJob}
    (hold : s.jobs slot = some old) (hsame : job.SameTimes old) :
    (openCredits config { s with jobs := Function.update s.jobs slot (some job) }).Sublist
      (s.openCredits config) := by
  refine openCredits_sublist (List.Sublist.refl _) ?_
  intro credit _ haccepts
  obtain ⟨-, htsms, hstale⟩ := hsame
  by_cases hslot : credit.share.jobIndex = slot
  · simp only [stillAccepts, hslot, Function.update_self, StaleConfig.isPast, htsms,
      hstale] at haccepts
    simpa only [stillAccepts, hslot, hold, StaleConfig.isPast] using haccepts
  · simpa only [stillAccepts, Function.update_of_ne hslot] using haccepts

theorem openCredits_loop_sublist {tsms : UInt64} (hclock : s.loopTsms ≤ tsms) :
    (openCredits config { s with loopTsms := tsms }).Sublist (s.openCredits config) := by
  refine openCredits_sublist (List.Sublist.refl _) ?_
  intro credit _ haccepts
  unfold stillAccepts at haccepts ⊢
  cases hjob : s.jobs credit.share.jobIndex with
  | none =>
    simp only [hjob] at haccepts
    exact absurd haccepts Bool.false_ne_true
  | some job =>
    simp only [hjob, StaleConfig.isPast, Bool.and_eq_true, Bool.not_eq_true',
      decide_eq_false_iff_not, gt_iff_lt, UInt64.not_lt] at haccepts ⊢
    exact ⟨haccepts.1, UInt64.le_trans hclock haccepts.2⟩

section Submit

variable {m : MinerData} {params : Json} {now : UInt64} {work : SubmittedWork}

/-- The job of a share that passes the checks still accepts it. -/
theorem stillAccepts_of_checkedShare
    (h : s.checkedShare decode lotto config sha256 blake2b m params = .ok work) :
    s.stillAccepts config work.jobIndex = true := by
  obtain ⟨read, hread, hcheck⟩ := ok_of_bind h
  simp only [checkShare] at hcheck
  split_ifs at hcheck with hblock _ _ _ hpast
  cases hcheck
  obtain ⟨quoted, hquoted⟩ := readFrom_of_readSubmit hread
  have hslot := QuotedJob.eq_some_of_findJob hquoted.job
  rw [Bool.not_eq_true] at hblock hpast
  simp only [stillAccepts, hslot, hblock, hpast, Bool.not_false, Bool.and_true]

/-- What a call that does no harm prunes is no longer accepted. -/
theorem mem_remember {call : DupeCall} {share : DupeShare}
    (hmem : share ∈ insert call.share s.dupes.memory.live) (hgap : s.NoGap config call)
    (haccepts : s.stillAccepts config share.jobIndex = true) :
    share ∈ (s.dupes.memory.remember call.env call.share).live := by
  by_cases hseen : call.share ∈ s.dupes.memory.live
  · rw [DupeMemory.remember, if_pos hseen]
    rwa [Finset.insert_eq_of_mem hseen] at hmem
  · by_cases hroom : (insert call.share s.dupes.memory.live).card < s.dupes.memory.capacity
    · rwa [DupeTable.remember_of_room hseen hroom]
    · have hfull := Nat.le_of_not_lt hroom
      rw [DupeTable.remember_of_full hseen hfull]
      simp only [keptShares]
      split
      · next hprunes =>
        rw [Finset.mem_filter]
        refine ⟨hmem, ?_⟩
        by_contra hstale
        rw [Bool.not_eq_false] at hstale
        have hclosed := hgap ⟨hseen, hfull⟩ hprunes share hmem hstale
        exact Bool.false_ne_true (hclosed.symm.trans haccepts)
      · exact hmem

/-- A submit whose clean-up does no harm keeps the credits, and adds one only for a
    share that was not there. -/
theorem Kept.submit (h : s.Kept config)
    (hkept : s.TableKept decode lotto config sha256 blake2b (.submit m params now))
    (hstep : s.submit decode lotto config sorter sha256 blake2b m params now = some s') :
    s'.Kept config ∧ (s'.openCredits config = s.openCredits config ∨ ∃ work,
      s.checkedShare decode lotto config sha256 blake2b m params = .ok work ∧
      (work.dupeCall (s.dupeEnv config now)).share ∉ s.dupes.memory.live ∧
      s'.openCredits config =
        { share := (work.dupeCall (s.dupeEnv config now)).share
          header := work.header sha256 blake2b } :: s.openCredits config) := by
  unfold ThreadState.submit at hstep
  cases hchecked : s.checkedShare decode lotto config sha256 blake2b m params with
  | error reason =>
    rw [hchecked] at hstep
    cases hstep
    exact ⟨h, Or.inl rfl⟩
  | ok work =>
    obtain ⟨hharmless, hgap⟩ := hkept work hchecked
    have haccepts := stillAccepts_of_checkedShare hchecked
    rw [hchecked] at hstep
    generalize hcall : work.dupeCall (s.dupeEnv config now) = call at hstep hharmless hgap
    obtain ⟨tbl', hcheck, hexact, hmax⟩ := h.dupes.exists_check sorter hharmless
    have hsound : DupeState.Sound { table := tbl'
                                    memory := s.dupes.memory.remember call.env call.share } :=
      ⟨hexact, hmax, Nat.le_trans h.dupes.capacity_ge (capacity_remember_ge _ _ _)⟩
    have hstate : s.noteShare config sha256 blake2b work now
        (decide (call.share ∈ s.dupes.memory.live), tbl') = s' := by
      simpa only [hcall, hcheck, Option.map_some, Option.some.injEq] using hstep
    have hremembered : ∀ credit ∈ s.openCredits config,
        credit.share ∈ (s.dupes.memory.remember call.env call.share).live := by
      intro credit hcredit
      exact mem_remember (Finset.mem_insert_of_mem (h.remembered credit hcredit)) hgap
        (mem_openCredits.mp hcredit).2
    by_cases hseen : call.share ∈ s.dupes.memory.live
    · have hsame : s' = { s with
          dupes := { table := tbl', memory := s.dupes.memory.remember call.env call.share } } := by
        rw [← hstate, noteShare, hcall, decide_eq_true hseen]
        rfl
      rw [hsame]
      exact ⟨⟨hsound, hremembered, h.once⟩, Or.inl rfl⟩
    · have hsame : s' = { s with
          dupes := { table := tbl', memory := s.dupes.memory.remember call.env call.share }
          credited := { share := call.share, header := work.header sha256 blake2b } ::
            s.credited } := by
        rw [← hstate, noteShare, hcall, decide_eq_false hseen]
        rfl
      have hopen : s'.openCredits config =
          { share := call.share, header := work.header sha256 blake2b } ::
            s.openCredits config := by
        have hslot : call.share.jobIndex = work.jobIndex := by
          rw [← hcall]
          rfl
        rw [hsame]
        exact List.filter_cons_of_pos (hslot ▸ haccepts)
      refine ⟨⟨?_, ?_, ?_⟩, Or.inr ⟨work, rfl, ?_, ?_⟩⟩
      · rw [hsame]
        exact hsound
      · rw [hopen, hsame]
        intro credit hcredit
        rcases List.mem_cons.mp hcredit with rfl | hcredit
        · refine mem_remember (Finset.mem_insert_self _ _) hgap ?_
          rw [← hcall]
          exact haccepts
        · exact hremembered credit hcredit
      · rw [hopen, List.map_cons, List.nodup_cons]
        refine ⟨fun hin => ?_, h.once⟩
        obtain ⟨credit, hcredit, hshare⟩ := List.mem_map.mp hin
        have hsame : credit.share = call.share := hshare
        exact hseen (hsame ▸ h.remembered credit hcredit)
      · rw [hcall]
        exact hseen
      · rw [hopen, hcall]

end Submit

/-! ## Runs -/

/-- A share that is accepted and added to the credits that count. -/
def Adds (decode : List UInt8 → Option (List UInt8)) (lotto : LottoConfig) (config : StaleConfig)
    (sha256 blake2b : List UInt8 → Hash32) (s s' : ThreadState) : ThreadEvent → Prop
  | .submit m params now => ∃ work,
      s.checkedShare decode lotto config sha256 blake2b m params = .ok work ∧
      (work.dupeCall (s.dupeEnv config now)).share ∉ s.dupes.memory.live ∧
      s'.openCredits config = { share := (work.dupeCall (s.dupeEnv config now)).share
                                header := work.header sha256 blake2b } :: s.openCredits config
  | _ => False

/-- No event of which the clean-ups do no harm loses what was kept, and credits are
    added for new shares only. -/
theorem Kept.step (h : s.Kept config) {event : ThreadEvent}
    (hkept : s.TableKept decode lotto config sha256 blake2b event)
    (hstep : (threadSystem decode lotto config sorter sha256 blake2b).step s event = some s') :
    s'.Kept config ∧ ((s'.openCredits config).Sublist (s.openCredits config) ∨
      Adds decode lotto config sha256 blake2b s s' event) := by
  cases event with
  | newJob slot job newBlock =>
    cases hstep
    have hfewer : ((s.putJob slot job newBlock).openCredits config).Sublist
        (s.openCredits config) := openCredits_putJob_sublist slot job newBlock
    exact ⟨h.of_sublist rfl hfewer, Or.inl hfewer⟩
  | rewriteJob slot job =>
    simp only [threadSystem, Option.ite_none_right_eq_some, Option.any_eq_true] at hstep
    obtain ⟨⟨old, hold, hsame⟩, hstate⟩ := hstep
    cases hstate
    have hfewer : (openCredits config
        { s with jobs := Function.update s.jobs slot (some job) }).Sublist
          (s.openCredits config) :=
      openCredits_rewriteJob_sublist hold (of_decide_eq_true hsame)
    exact ⟨h.of_sublist rfl hfewer, Or.inl hfewer⟩
  | loop tsms =>
    cases hstep
    have hfewer : (openCredits config { s with loopTsms := tsms }).Sublist
        (s.openCredits config) := openCredits_loop_sublist hkept
    exact ⟨h.of_sublist rfl hfewer, Or.inl hfewer⟩
  | submit m params now =>
    obtain ⟨hkept', hsame | hadds⟩ := h.submit hkept hstep
    · exact ⟨hkept', Or.inl (hsame ▸ List.Sublist.refl _)⟩
    · exact ⟨hkept', Or.inr hadds⟩

theorem openCredits_of_isInitial (h : s.IsInitial) : s.openCredits config = [] := by
  rw [openCredits, h.2, List.filter_nil]

theorem kept_of_isInitial (h : s.IsInitial) : s.Kept config := by
  refine ⟨sound_of_isInitial h.1, ?_, ?_⟩
  · rw [openCredits_of_isInitial h]
    exact fun credit hcredit => absurd hcredit List.not_mem_nil
  · rw [openCredits_of_isInitial h]
    exact List.nodup_nil

/-- In runs without harmful clean-ups no share is accepted twice while its job is
    still accepted, and each that could be is in the table. -/
theorem acceptedOnce_of_tableKept
    (hrun : (threadSystem decode lotto config sorter sha256 blake2b).ReachedBy
      (fun s event => s.TableKept decode lotto config sha256 blake2b event) IsInitial s) :
    ((s.openCredits config).map Credit.share).Nodup ∧
      (∀ credit ∈ s.openCredits config, credit.share ∈ s.dupes.memory.live) ∧
      s.dupes.table.ChainsExact s.dupes.memory.live := by
  have hkept : s.Kept config := hrun.invariant (fun _ => kept_of_isInitial)
    fun _ _ _ h hcond hstep => (h.step hcond hstep).1
  exact ⟨hkept.once, hkept.remembered, hkept.dupes.exact.chainsExact⟩

/-- No work counts twice. -/
structure WorkOnce (config : StaleConfig) (s : ThreadState) : Prop where
  kept : s.Kept config
  headers : ((s.openCredits config).map Credit.header).Nodup

/-- Work that counts already is compared as it was then, and was seen. -/
theorem WorkOnce.step (h : s.WorkOnce config) {event : ThreadEvent}
    (hcond : s.WorkKept decode lotto config sha256 blake2b event)
    (hstep : (threadSystem decode lotto config sorter sha256 blake2b).step s event = some s') :
    s'.WorkOnce config := by
  obtain ⟨htable, hsame⟩ := hcond
  obtain ⟨hkept, hfewer | hadds⟩ := h.kept.step htable hstep
  · exact ⟨hkept, h.headers.sublist (hfewer.map _)⟩
  · refine ⟨hkept, ?_⟩
    cases event with
    | submit m params now =>
      obtain ⟨work, hchecked, hnew, hopen⟩ := hadds
      rw [hopen, List.map_cons, List.nodup_cons]
      refine ⟨fun hin => ?_, h.headers⟩
      obtain ⟨credit, hcredit, hheader⟩ := List.mem_map.mp hin
      obtain ⟨hcredited, haccepts⟩ := mem_openCredits.mp hcredit
      have hshare := hsame work hchecked credit hcredited haccepts hheader
      exact hnew (hshare ▸ h.kept.remembered credit hcredit)
    | newJob slot job newBlock => exact hadds.elim
    | rewriteJob slot job => exact hadds.elim
    | loop tsms => exact hadds.elim

/-- In runs where the same work is also never compared in two ways, no work is
    credited twice while its job is still accepted. -/
theorem creditedOnce_of_workKept
    (hrun : (threadSystem decode lotto config sorter sha256 blake2b).ReachedBy
      (fun s event => s.WorkKept decode lotto config sha256 blake2b event) IsInitial s) :
    ((s.openCredits config).map Credit.header).Nodup := by
  have honce : s.WorkOnce config := by
    refine hrun.invariant ?_ fun _ _ _ h hcond hstep => h.step hcond hstep
    intro s hinitial
    refine ⟨kept_of_isInitial hinitial, ?_⟩
    rw [openCredits_of_isInitial hinitial]
    exact List.nodup_nil
  exact honce.headers

end ThreadState

/-! ## Three threads -/

section Decide

instance decidableForallOk {ε α : Type} (result : Except ε α) (p : α → Prop)
    [∀ value, Decidable (p value)] :
    Decidable (∀ value, result = .ok value → p value) :=
  match result with
  | .error _ => isTrue nofun
  | .ok value => decidable_of_iff (p value)
      ⟨fun hvalue _ hok => Except.ok.inj hok ▸ hvalue, fun hall => hall value rfl⟩

variable (decode : List UInt8 → Option (List UInt8)) (lotto : LottoConfig) (config : StaleConfig)
variable (sha256 : List UInt8 → Hash32) (blake2b : List UInt8 → Hash32)
variable (s : ThreadState)

instance (call : DupeCall) : Decidable (s.NoGap config call) :=
  inferInstanceAs (Decidable (_ → _ → ∀ share ∈ _, _ → _))

instance (work : SubmittedWork) (call : DupeCall) :
    Decidable (s.SameKey config sha256 blake2b work call) :=
  inferInstanceAs (Decidable (∀ credit ∈ _, _ → _ → _))

instance (event : ThreadEvent) :
    Decidable (s.TableKept decode lotto config sha256 blake2b event) :=
  match event with
  | .newJob _ _ _ => isTrue trivial
  | .rewriteJob _ _ => isTrue trivial
  | .loop tsms => inferInstanceAs (Decidable (s.loopTsms ≤ tsms))
  | .submit m params _ => inferInstanceAs (Decidable (∀ work,
      s.checkedShare decode lotto config sha256 blake2b m params = .ok work → _ ∧ _))

instance (event : ThreadEvent) :
    Decidable (s.WorkKept decode lotto config sha256 blake2b event) :=
  match event with
  | .newJob _ _ _ => isTrue ⟨trivial, trivial⟩
  | .rewriteJob _ _ => isTrue ⟨trivial, trivial⟩
  | .loop tsms => decidable_of_iff (s.loopTsms ≤ tsms) (and_iff_left trivial).symm
  | .submit m params _ => inferInstanceAs (Decidable (_ ∧ ∀ work,
      s.checkedShare decode lotto config sha256 blake2b m params = .ok work → _))

end Decide

/-- The default settings. -/
def defaultStaleConfig : StaleConfig where
  stratumV1ShareStaleSeconds := 120
  bitcoindWorkUpdateSeconds := 40
  shareStale_bounds := by decide
  workUpdate_bounds := by decide

/-- A hash function that hashes everything to zero. -/
def zeroHash (_ : List UInt8) : Hash32 := uniformHash 0

def emptyThread : ThreadState where
  jobs := fun _ => none
  loopTsms := 0
  dupes := smallestState
  credited := []

theorem emptyThread_isInitial : emptyThread.IsInitial := ⟨smallestState_isInitial, rfl⟩

def zeroThreadSystem : System ThreadState ThreadEvent :=
  threadSystem (fun _ => none) poolOnlyConfig defaultStaleConfig (Qsort.insertionSorter _) zeroHash
    zeroHash

/-- A share for `splitJob`, quoted with a prefix, at some time after the job was
    made. -/
def shareEvent (jobPrefix : String) (nonce : List UInt8) (age : UInt64) : ThreadEvent :=
  .submit plainMiner (.array [.string (ascii "miner"),
    .string (ascii jobPrefix ++ ascii "6553f10000c0de04"), .string (ascii "0000000000000000"),
    .string (ascii "6553f100"), .string (Hex.encode nonce)]) (1700000000000 + age)

/-- Nonces with the same low 16 bits. -/
def chainNonce (i : Nat) : List UInt8 := [0, 0, UInt8.ofNat i, 0, 0, 0, 0, 0]

/-- The job is made, and the loop has come to some time after that. -/
def startEvents (age : UInt64) : List ThreadEvent :=
  [.newJob 0 splitJob true, .loop (1700000000000 + age)]

/-- Two shares of a fresh job are both in the table. -/
theorem exists_twoShares_remembered : ∃ s,
    zeroThreadSystem.ReachedBy (fun s event => s.TableKept (fun _ => none) poolOnlyConfig
      defaultStaleConfig zeroHash zeroHash event) ThreadState.IsInitial s ∧
    (s.openCredits defaultStaleConfig).length = 2 ∧
    ((s.openCredits defaultStaleConfig).map Credit.share).Nodup := by
  obtain ⟨s, hrun, htest⟩ := System.exists_reachedBy_of_replay zeroThreadSystem
    emptyThread_isInitial (fun s event => decide (s.TableKept (fun _ => none) poolOnlyConfig
      defaultStaleConfig zeroHash zeroHash event))
    (startEvents 1000 ++ [shareEvent "" (chainNonce 0) 1000, shareEvent "" (chainNonce 1) 2000])
    (fun s => decide ((s.openCredits defaultStaleConfig).length = 2))
    (fun _ _ => of_decide_eq_true) (by decide +kernel)
  exact ⟨s, hrun, of_decide_eq_true htest, (ThreadState.acceptedOnce_of_tableKept hrun).1⟩

/-- Sixteen shares of a job that is 130 seconds old fill the smallest table, and all
    are pruned: the first is accepted a second time. -/
theorem exists_share_acceptedTwice : ∃ s,
    zeroThreadSystem.Reachable ThreadState.IsInitial s ∧
    ¬ ((s.openCredits defaultStaleConfig).map Credit.share).Nodup := by
  obtain ⟨s, hrun, htest⟩ := System.exists_reachedBy_of_replay zeroThreadSystem
    emptyThread_isInitial (fun _ _ => true)
    (startEvents 130000 ++ (List.range 16).map (fun i => shareEvent "" (chainNonce i) 130000) ++
      [shareEvent "" (chainNonce 0) 130000])
    (fun s => decide (¬ ((s.openCredits defaultStaleConfig).map Credit.share).Nodup))
    (fun _ _ _ => trivial) (by decide +kernel)
  exact ⟨s, hrun, of_decide_eq_true htest⟩

/-- Two shares with two nonces are two works. -/
theorem exists_twoShares_workOnce : ∃ s,
    zeroThreadSystem.ReachedBy (fun s event => s.WorkKept (fun _ => none) poolOnlyConfig
      defaultStaleConfig zeroHash zeroHash event) ThreadState.IsInitial s ∧
    (s.openCredits defaultStaleConfig).length = 2 ∧
    ((s.openCredits defaultStaleConfig).map Credit.header).Nodup := by
  obtain ⟨s, hrun, htest⟩ := System.exists_reachedBy_of_replay zeroThreadSystem
    emptyThread_isInitial (fun s event => decide (s.WorkKept (fun _ => none) poolOnlyConfig
      defaultStaleConfig zeroHash zeroHash event))
    (startEvents 1000 ++ [shareEvent "" (chainNonce 0) 1000, shareEvent "" (chainNonce 1) 2000])
    (fun s => decide ((s.openCredits defaultStaleConfig).length = 2))
    (fun _ _ => of_decide_eq_true) (by decide +kernel)
  exact ⟨s, hrun, of_decide_eq_true htest, ThreadState.creditedOnce_of_workKept hrun⟩

/-- The same share with and without the mark of a quick change of difficulty. -/
theorem exists_work_creditedTwice : ∃ s,
    zeroThreadSystem.Reachable ThreadState.IsInitial s ∧
    ¬ ((s.openCredits defaultStaleConfig).map Credit.header).Nodup := by
  obtain ⟨s, hrun, htest⟩ := System.exists_reachedBy_of_replay zeroThreadSystem
    emptyThread_isInitial (fun _ _ => true)
    (startEvents 1000 ++ [shareEvent "" (chainNonce 0) 1000, shareEvent "Q" (chainNonce 0) 2000])
    (fun s => decide (¬ ((s.openCredits defaultStaleConfig).map Credit.header).Nodup))
    (fun _ _ _ => trivial) (by decide +kernel)
  exact ⟨s, hrun, of_decide_eq_true htest⟩

end ChirpGateway
