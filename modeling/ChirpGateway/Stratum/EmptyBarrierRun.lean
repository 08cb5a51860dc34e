import ChirpGateway.Lib.History
import ChirpGateway.Stratum.EmptyBarrier
import ChirpGateway.Stratum.Pacing
import Mathlib.Data.List.Nodup

/-!
# What the wait for empty work ensures

No thread sends a job in full before its empty work, and none sends the same work twice. Full
work of a new block waits for the empty work of all threads that are running, but for one
that is just being started. A thread that starts behind the publication keeps it from being
let through at all: there is no time limit.
-/

namespace ChirpGateway

open History Transition

/-! ## One turn -/

namespace WorkThread

variable {s : WorkThread} {cfg : PaceConfig} {clients : Subscribers} {job : LoopJob}

/-- The look for the coinbaser changes nothing that the order of the work rests on. -/
@[simp] theorem coinbaserReady_keeps (s : WorkThread) (job : LoopJob) :
    (s.coinbaserReady job).2.latestStratumJobIndex = s.latestStratumJobIndex ∧
      (s.coinbaserReady job).2.newJob = s.newJob ∧
      (s.coinbaserReady job).2.lastWasEmpty = s.lastWasEmpty := by
  unfold coinbaserReady
  split
  · simp
  · split <;> simp

/-- A look at the latest job leaves a thread with its job, or gives it another one. -/
theorem pickUp_cases (s : WorkThread) (latest : Fin 256) (jobs : Fin 256 → LoopJob) :
    let after := s.pickUp latest jobs
    (after.latestStratumJobIndex = s.latestStratumJobIndex ∧ after.newJob = s.newJob ∧
      after.lastWasEmpty = s.lastWasEmpty) ∨
    (latest ≠ s.latestStratumJobIndex ∧ after.latestStratumJobIndex = latest ∧
      after.newJob = true ∧ ((jobs latest).jobState = 2 → after.lastWasEmpty = false)) := by
  intro after
  have htaken (s : WorkThread) : (s.takeUp latest (jobs latest)).latestStratumJobIndex = latest ∧
      (s.takeUp latest (jobs latest)).newJob = true ∧
      ((jobs latest).jobState = 2 → (s.takeUp latest (jobs latest)).lastWasEmpty = false) :=
    ⟨rfl, rfl, fun h => if_pos h⟩
  by_cases hsame : latest = s.latestStratumJobIndex
  · simp [after, pickUp, hsame]
  · by_cases hwaits : s.lastWasEmpty && 4 ≤ (jobs latest).jobState
    · have hafter : after = if (s.coinbaserReady (jobs latest)).1 ||
          (s.coinbaserReady (jobs latest)).2.lastJobHeight ≠ (jobs latest).height
          then (s.coinbaserReady (jobs latest)).2.takeUp latest (jobs latest)
          else (s.coinbaserReady (jobs latest)).2 := by
        simp only [after, pickUp, if_neg hsame, if_pos hwaits]
      rw [hafter]
      split
      · exact .inr ⟨hsame, htaken _⟩
      · exact .inl ⟨by simp, by simp, by simp⟩
    · have hafter : after = s.takeUp latest (jobs latest) := by
        simp only [after, pickUp, if_neg hsame, if_neg hwaits]
      rw [hafter]
      exact .inr ⟨hsame, htaken _⟩

/-- A thread sends nothing to all, or it sends new work: empty first, where the job has both,
    and full only where it may. -/
theorem workOn_cases (s : WorkThread) (cfg : PaceConfig) (clients : Subscribers) (job : LoopJob)
    (ready : Bool) :
    let done := s.workOn cfg clients job ready
    done.after.latestStratumJobIndex = s.latestStratumJobIndex ∧
    ((done.blast = none ∧
        (done.after.newJob = true → s.newJob = true ∧
          done.after.lastWasEmpty = s.lastWasEmpty)) ∨
      (done.blast = some .empty ∧ s.newJob = true ∧
        (job.jobState = 1 ∧ done.after.newJob = false ∨
          job.jobState = 2 ∧ s.lastWasEmpty = false ∧ done.after.lastWasEmpty = true)) ∨
      (done.blast = some .full ∧ s.newJob = true ∧ done.after.newJob = false ∧
        (job.jobState = 2 → s.lastWasEmpty = true ∧ ready = true))) := by
  intro done
  cases hnew : s.newJob with
  | false => simp [done, workOn, hnew]
  | true =>
    have hpacing (s : WorkThread) :
        (s.startPacing cfg clients).latestStratumJobIndex = s.latestStratumJobIndex := by
      simp only [startPacing]
      split <;> rfl
    simp only [done, workOn, hnew, if_true]
    split
    · simp [sendEmpty, *]
    · next hstate =>
      cases hlast : s.lastWasEmpty with
      | false => simp [sendEmpty, hstate]
      | true => cases ready <;> simp [sendFull, workSent, hstate]
    · simp [sendFull, workSent, *]
    · next hstate =>
      split <;> simp [sendFull, workSent, hstate]
    · next hstate =>
      split
      · split <;> simp [sendFull, workSent, hpacing, hstate]
      · simp
    · simp

theorem pace_keeps (s : WorkThread) (cfg : PaceConfig) (clients : Subscribers) :
    (s.pace cfg clients).after.latestStratumJobIndex = s.latestStratumJobIndex ∧
      (s.pace cfg clients).after.newJob = s.newJob ∧
      (s.pace cfg clients).after.lastWasEmpty = s.lastWasEmpty := by
  unfold pace
  split <;> simp

end WorkThread

/-- Within one turn of the ring a slot has one job. -/
theorem slotOf_inj {g h : Nat} (hle : g ≤ h) (hlt : h < g + 256) (heq : slotOf g = slotOf h) :
    g = h := by
  have hmod : g % 256 = h % 256 := congrArg Fin.val heq
  omega

namespace EmptyBarrier

variable {b b' : EmptyBarrier} {cfg : Nat → PaceConfig} {t : Nat}

/-! ## What holds at each event -/

/-- Work that may be sent, and full work that may be let through, behind a history. -/
def Allowed : BarrierEvent → List BarrierEvent → Prop
  | .blast t serial jobState kind, before =>
    (∀ g st k, .blast t g st k ∈ before →
      g < serial ∨ g = serial ∧ k = .empty ∧ kind = .full) ∧
      (jobState = 2 → kind = .full → .blast t serial 2 .empty ∈ before ∧
        ∃ r n, serial ≤ r ∧ .opened r n ∈ before)
  | .opened serial created, before =>
    ∃ late, ∀ t < created, t ≠ late → .blast t serial 2 .empty ∈ before

/-! ## What holds in every state -/

/-- The job that was overwritten last. -/
def written (b : EmptyBarrier) : Nat := if b.update = .idle then b.latest else b.latest + 1

/-- A thread works on a job that is still in its slot, and has sent what its flags tell. -/
structure ThreadInv (b : EmptyBarrier) (t : Nat) : Prop where
  index : (b.threads t).work.latestStratumJobIndex = slotOf (b.threads t).serial
  behind : (b.threads t).serial ≤ b.latest
  window : b.written < (b.threads t).serial + 256
  past : ∀ g st k, .blast t g st k ∈ b.log → g < (b.threads t).serial ∨
    g = (b.threads t).serial ∧ ((b.threads t).work.newJob = true →
      k = .empty ∧ (b.jobs (slotOf (b.threads t).serial)).jobState = 2 ∧
        (b.threads t).work.lastWasEmpty = true)
  waits : (b.threads t).work.newJob = true →
    (b.jobs (slotOf (b.threads t).serial)).jobState = 2 →
    (b.threads t).work.lastWasEmpty = true → .blast t (b.threads t).serial 2 .empty ∈ b.log
  emptied : (b.threads t).phase = .worked (some .empty) →
    (b.threads t).serial ≤ b.recordSerial ∧ .blast t (b.threads t).serial 2 .empty ∈ b.log
  once : t ∈ b.arrived → (b.threads t).phase = .worked (some .empty) →
    (b.threads t).serial ≠ b.recordSerial

/-- The invariant of the wait for empty work. -/
structure Inv (b : EmptyBarrier) : Prop where
  threads : ∀ t < b.created, (b.threads t).phase ≠ .starting → ThreadInv b t
  silent : ∀ t, (t < b.created → (b.threads t).phase = .starting) →
    t ∉ b.arrived ∧ ∀ g st k, .blast t g st k ∉ b.log
  active : b.datumActiveThreads ≤ b.created ∧ b.created ≤ b.datumActiveThreads + 1
  recordIndex : b.latestEmptyJobIndex = slotOf b.recordSerial
  record_le : b.recordSerial ≤ b.written
  emptyJobs : ∀ g ≤ b.written, b.written < g + 256 → (b.jobs (slotOf g)).jobState < 4 →
    (b.jobs (slotOf g)).jobState = 2 ∧
      (g ≤ b.recordSerial ∨ g = b.latest + 1 ∧ b.update = .written true)
  nodup : b.arrived.Nodup
  arrived : ∀ t ∈ b.arrived, .blast t b.recordSerial 2 .empty ∈ b.log
  counted : b.latestEmptyCompleteCount = b.arrived.length
  opened : b.latestEmptyReadyForFull = true → ∃ n, .opened b.recordSerial n ∈ b.log
  history : Always Allowed b.log

theorem Inv.first (height tsms : UInt64) (jobs : Fin 256 → LoopJob) :
    Inv (first height tsms jobs) where
  threads t ht := absurd ht (Nat.not_lt_zero t)
  silent t _ := ⟨List.not_mem_nil, fun _ _ _ => List.not_mem_nil⟩
  active := ⟨Nat.le_refl 0, Nat.zero_le 1⟩
  recordIndex := rfl
  record_le := Nat.zero_le _
  emptyJobs g hg _ _ := by
    have hzero : g = 0 := Nat.le_zero.mp hg
    subst hzero
    exact ⟨by simp [EmptyBarrier.first, WorkCause.job, WorkCause.jobState],
      .inl (Nat.le_refl 0)⟩
  nodup := List.nodup_nil
  arrived t ht := absurd ht List.not_mem_nil
  counted := rfl
  opened h := Bool.noConfusion h
  history := .nil

/-! ## What a step leaves alone -/

/-- A step is not one of the thread, and leaves its job in its slot. -/
structure Apart (b b' : EmptyBarrier) (t : Nat) : Prop where
  thread : b'.threads t = b.threads t
  latest : b.latest ≤ b'.latest
  window : b'.written < (b.threads t).serial + 256
  jobState : (b'.jobs (slotOf (b.threads t).serial)).jobState =
    (b.jobs (slotOf (b.threads t).serial)).jobState
  grows : b.log ⊆ b'.log
  own : ∀ g st k, .blast t g st k ∈ b'.log → .blast t g st k ∈ b.log
  record : b.recordSerial ≤ b'.recordSerial
  arrived : t ∈ b'.arrived → t ∈ b.arrived ∧ b'.recordSerial = b.recordSerial

theorem ThreadInv.apart (h : ThreadInv b t) (hapart : Apart b b' t) : ThreadInv b' t := by
  obtain ⟨hthread, hlatest, hwindow, hstate, hgrows, hown, hrecord, harrived⟩ := hapart
  constructor <;> rw [hthread]
  · exact h.index
  · exact h.behind.trans hlatest
  · exact hwindow
  · intro g st k hmem
    rw [hstate]
    exact h.past g st k (hown g st k hmem)
  · intro hnew htwo hlast
    rw [hstate] at htwo
    exact hgrows (h.waits hnew htwo hlast)
  · intro hphase
    obtain ⟨hle, hmem⟩ := h.emptied hphase
    exact ⟨hle.trans hrecord, hgrows hmem⟩
  · intro hmem hphase
    obtain ⟨hold, hsame⟩ := harrived hmem
    rw [hsame]
    exact h.once hold hphase

/-! ## The template thread -/

theorem written_of_idle (h : b.update = .idle) : b.written = b.latest := if_pos h

theorem written_of_busy (h : b.update ≠ .idle) : b.written = b.latest + 1 := if_neg h

theorem latest_le_written (b : EmptyBarrier) : b.latest ≤ b.written := by
  unfold written
  split <;> omega

theorem jobs_write_of_ne {cause : WorkCause} {height tsms : UInt64} {serial : Nat}
    (hle : serial ≤ b.latest) (hlt : b.latest + 1 < serial + 256) :
    (b.write cause height tsms).jobs (slotOf serial) = b.jobs (slotOf serial) := by
  refine Function.update_of_ne (fun heq => ?_) _ _
  have hsame := slotOf_inj (Nat.le_succ_of_le hle) hlt heq
  omega

theorem Inv.write {cause : WorkCause} {height tsms : UInt64} (h : Inv b) (hidle : b.update = .idle)
    (hkeeps : ∀ t < b.created, (b.threads t).phase ≠ .starting →
      b.latest < (b.threads t).serial + 255) :
    Inv (b.write cause height tsms) := by
  have hwritten : (b.write cause height tsms).written = b.latest + 1 :=
    written_of_busy (by simp [EmptyBarrier.write])
  refine { h with threads := ?_, record_le := ?_, emptyJobs := ?_ }
  · intro t ht hphase
    have hinv := h.threads t ht hphase
    have hwindow := hkeeps t ht hphase
    refine hinv.apart ⟨rfl, Nat.le_refl _, by omega, ?_, List.Subset.refl _, fun _ _ _ => id,
      Nat.le_refl _, fun hmem => ⟨hmem, rfl⟩⟩
    rw [jobs_write_of_ne hinv.behind (by omega)]
  · have hrecord := h.record_le
    rw [written_of_idle hidle] at hrecord
    rw [hwritten]
    exact Nat.le_succ_of_le hrecord
  · intro g hg hlt hstate
    rw [hwritten] at hg hlt
    by_cases hnew : g = b.latest + 1
    · subst hnew
      have hjob : (b.write cause height tsms).jobs (slotOf (b.latest + 1)) =
          cause.job height tsms := Function.update_self _ _ _
      rw [hjob] at hstate ⊢
      cases cause with
      | emptyPlus => exact ⟨rfl, .inr ⟨rfl, rfl⟩⟩
      | fullPriority => exact absurd hstate (by simp [WorkCause.job, WorkCause.jobState])
      | fastForward => exact absurd hstate (by simp [WorkCause.job, WorkCause.jobState])
      | fullNormal => exact absurd hstate (by simp [WorkCause.job, WorkCause.jobState])
    · have hold : g ≤ b.latest := by omega
      rw [jobs_write_of_ne hold hlt] at hstate ⊢
      obtain ⟨htwo, hle | ⟨-, hbusy⟩⟩ := h.emptyJobs g (hold.trans (latest_le_written b))
        (by rw [written_of_idle hidle]; omega) hstate
      · exact ⟨htwo, .inl hle⟩
      · rw [hidle] at hbusy
        cases hbusy

theorem Inv.resetEmpty (h : Inv b) (hphase : b.update = .written true) : Inv b.resetEmpty := by
  have hold : b.written = b.latest + 1 := written_of_busy (by simp [hphase])
  have hwritten : b.resetEmpty.written = b.latest + 1 :=
    written_of_busy (by simp [EmptyBarrier.resetEmpty])
  have hrecord : b.recordSerial ≤ b.latest + 1 := hold ▸ h.record_le
  refine { h with
    threads := ?_, silent := ?_, recordIndex := rfl, record_le := ?_, emptyJobs := ?_,
    nodup := List.nodup_nil, arrived := ?_, counted := rfl, opened := ?_ }
  · intro t ht hstarted
    have hinv := h.threads t ht hstarted
    refine hinv.apart ⟨rfl, Nat.le_refl _, ?_, rfl, List.Subset.refl _, fun _ _ _ => id, hrecord,
      fun hmem => absurd hmem List.not_mem_nil⟩
    rw [hwritten, ← hold]
    exact hinv.window
  · intro t ht
    exact ⟨List.not_mem_nil, (h.silent t ht).2⟩
  · exact hwritten.symm ▸ Nat.le_refl _
  · intro g hg hlt hstate
    rw [hwritten] at hg hlt
    exact ⟨(h.emptyJobs g (hold.symm ▸ hg) (hold.symm ▸ hlt) hstate).1, .inl hg⟩
  · exact fun t hmem => absurd hmem List.not_mem_nil
  · exact fun hready => Bool.noConfusion hready

theorem Inv.publish (h : Inv b) (hphase : b.update = .written false ∨ b.update = .reset) :
    Inv b.publish := by
  have hold : b.written = b.latest + 1 := by
    rcases hphase with hwritten | hreset
    · exact written_of_busy (by simp [hwritten])
    · exact written_of_busy (by simp [hreset])
  have hwritten : b.publish.written = b.latest + 1 := written_of_idle rfl
  refine { h with threads := ?_, record_le := ?_, emptyJobs := ?_ }
  · intro t ht hstarted
    have hinv := h.threads t ht hstarted
    refine hinv.apart ⟨rfl, Nat.le_succ _, ?_, rfl, List.Subset.refl _, fun _ _ _ => id,
      Nat.le_refl _, fun hmem => ⟨hmem, rfl⟩⟩
    rw [hwritten, ← hold]
    exact hinv.window
  · rw [hwritten, ← hold]
    exact h.record_le
  · intro g hg hlt hstate
    rw [hwritten] at hg hlt
    obtain ⟨htwo, hle | ⟨-, hbusy⟩⟩ :=
      h.emptyJobs g (hold.symm ▸ hg) (hold.symm ▸ hlt) hstate
    · exact ⟨htwo, .inl hle⟩
    · rcases hphase with hwritten | hreset
      · exact absurd (hbusy.symm.trans hwritten) (by simp)
      · exact absurd (hbusy.symm.trans hreset) (by simp)

theorem Inv.coinbaserDone {slot : Fin 256} (h : Inv b) : Inv (b.coinbaserDone slot) := by
  have hstate (i : Fin 256) : ((b.coinbaserDone slot).jobs i).jobState = (b.jobs i).jobState := by
    by_cases heq : i = slot
    · subst heq
      simp [EmptyBarrier.coinbaserDone]
    · simp [EmptyBarrier.coinbaserDone, heq]
  refine { h with threads := ?_, emptyJobs := ?_ }
  · intro t ht hstarted
    have hinv := h.threads t ht hstarted
    exact hinv.apart ⟨rfl, Nat.le_refl _, hinv.window, hstate _, List.Subset.refl _,
      fun _ _ _ => id, Nat.le_refl _, fun hmem => ⟨hmem, rfl⟩⟩
  · intro g hg hlt hsmall
    rw [hstate] at hsmall ⊢
    exact h.emptyJobs g hg hlt hsmall

/-! ## Starting threads, and letting full work through -/

theorem Inv.create (h : Inv b) (hcounted : b.created = b.datumActiveThreads) : Inv b.create := by
  have hthread {t : Nat} (ht : t ≠ b.created) : b.create.threads t = b.threads t :=
    Function.update_of_ne ht _ _
  have hnew : b.create.threads b.created = startingThread := Function.update_self _ _ _
  refine { h with threads := ?_, silent := ?_, active := ?_ }
  · intro t ht hstarted
    have hne : t ≠ b.created := by
      rintro rfl
      rw [hnew] at hstarted
      exact hstarted rfl
    have hold : t < b.created := Nat.lt_of_le_of_ne (Nat.lt_succ_iff.mp ht) hne
    rw [hthread hne] at hstarted
    have hinv := h.threads t hold hstarted
    exact hinv.apart ⟨hthread hne, Nat.le_refl _, hinv.window, rfl, List.Subset.refl _,
      fun _ _ _ => id, Nat.le_refl _, fun hmem => ⟨hmem, rfl⟩⟩
  · intro t ht
    refine h.silent t fun hold => ?_
    have hphase := ht (Nat.lt_succ_of_lt hold)
    rwa [hthread (Nat.ne_of_lt hold)] at hphase
  · simp only [EmptyBarrier.create]
    omega

theorem Inv.count (h : Inv b) (hmore : b.datumActiveThreads < b.created) : Inv b.count := by
  refine { h with threads := ?_, active := ?_ }
  · intro t ht hstarted
    have hinv := h.threads t ht hstarted
    exact hinv.apart ⟨rfl, Nat.le_refl _, hinv.window, rfl, List.Subset.refl _,
      fun _ _ _ => id, Nat.le_refl _, fun hmem => ⟨hmem, rfl⟩⟩
  · have hactive := h.active.2
    simp only [EmptyBarrier.count]
    omega

theorem Inv.lt_created (h : Inv b) (hmem : t ∈ b.arrived) :
    t < b.created ∧ (b.threads t).phase ≠ .starting := by
  by_contra hnot
  refine (h.silent t fun hlt => ?_).1 hmem
  by_contra hphase
  exact hnot ⟨hlt, hphase⟩

/-- Where as many threads have arrived as there are, or one less, one is missing at most. -/
theorem all_but_one {arrived : List Nat} {n : Nat} (hnodup : arrived.Nodup)
    (hlt : ∀ t ∈ arrived, t < n) (hlength : n ≤ arrived.length + 1) :
    ∃ late, ∀ t < n, t ≠ late → t ∈ arrived := by
  by_cases hall : ∀ t < n, t ∈ arrived
  · exact ⟨0, fun t ht _ => hall t ht⟩
  · push Not at hall
    obtain ⟨late, hlate, hmissing⟩ := hall
    refine ⟨late, fun t ht hne => ?_⟩
    by_contra habsent
    -- Two that are missing leave too few numbers for the others.
    have hsub : late :: t :: arrived ⊆ List.range n := by
      intro u hu
      simp only [List.mem_cons] at hu
      rcases hu with rfl | rfl | hu
      · exact List.mem_range.mpr hlate
      · exact List.mem_range.mpr ht
      · exact List.mem_range.mpr (hlt u hu)
    have hfull : (late :: t :: arrived).Nodup := by
      refine List.nodup_cons.mpr ⟨?_, List.nodup_cons.mpr ⟨habsent, hnodup⟩⟩
      simp only [List.mem_cons, not_or]
      exact ⟨Ne.symm hne, hmissing⟩
    have hle := (hfull.subperm hsub).length_le
    simp only [List.length_cons, List.length_range] at hle
    omega

theorem Inv.judge (h : Inv b) : Inv b.judge := by
  unfold EmptyBarrier.judge
  split
  · next hdone =>
    obtain ⟨hwaiting, henough⟩ := hdone
    refine { h with threads := ?_, silent := ?_, arrived := ?_, opened := ?_, history := ?_ }
    · intro t ht hstarted
      have hinv := h.threads t ht hstarted
      refine hinv.apart ⟨rfl, Nat.le_refl _, hinv.window, rfl, List.subset_cons_self _ _, ?_,
        Nat.le_refl _, fun hmem => ⟨hmem, rfl⟩⟩
      intro g st k hmem
      simpa using hmem
    · intro t ht
      obtain ⟨habsent, hsilent⟩ := h.silent t ht
      exact ⟨habsent, fun g st k hmem => hsilent g st k (by simpa using hmem)⟩
    · intro t hmem
      exact List.mem_cons_of_mem _ (h.arrived t hmem)
    · exact fun _ => ⟨b.created, List.mem_cons_self⟩
    · refine .cons ?_ h.history
      rw [h.counted] at henough
      obtain ⟨late, hlate⟩ := all_but_one h.nodup (fun t hmem => (h.lt_created hmem).1)
        (h.active.2.trans (Nat.succ_le_succ henough))
      exact ⟨late, fun t ht hne => h.arrived t (hlate t ht hne)⟩
  · exact h

/-! ## The turns of the threads -/

/-- A step of a thread: what it does not touch, and what it adds. -/
structure OwnStep (b b' : EmptyBarrier) (t : Nat) : Prop where
  others : ∀ u, u ≠ t → b'.threads u = b.threads u
  latest : b'.latest = b.latest
  jobs : b'.jobs = b.jobs
  update : b'.update = b.update
  created : b'.created = b.created
  active : b'.datumActiveThreads = b.datumActiveThreads
  index : b'.latestEmptyJobIndex = b.latestEmptyJobIndex
  ready : b'.latestEmptyReadyForFull = b.latestEmptyReadyForFull
  record : b'.recordSerial = b.recordSerial
  grows : b.log ⊆ b'.log
  blasts : ∀ e ∈ b'.log, e ∈ b.log ∨ ∃ g st k, e = .blast t g st k
  arrived : ∀ u, u ≠ t → u ∈ b'.arrived → u ∈ b.arrived

theorem OwnStep.written (hstep : OwnStep b b' t) : b'.written = b.written := by
  unfold EmptyBarrier.written
  rw [hstep.update, hstep.latest]

theorem OwnStep.apart {u : Nat} (hstep : OwnStep b b' t) (hinv : ThreadInv b u) (hne : u ≠ t) :
    Apart b b' u where
  thread := hstep.others u hne
  latest := Nat.le_of_eq hstep.latest.symm
  window := hstep.written ▸ hinv.window
  jobState := by rw [hstep.jobs]
  grows := hstep.grows
  own g st k hmem := by
    rcases hstep.blasts _ hmem with hold | ⟨_, _, _, heq⟩
    · exact hold
    · cases heq
      exact absurd rfl hne
  record := Nat.le_of_eq hstep.record.symm
  arrived hmem := ⟨hstep.arrived u hne hmem, hstep.record⟩

/-- A step of a thread keeps the invariant where it keeps that of the thread. -/
theorem Inv.own (h : Inv b) (hstep : OwnStep b b' t) (ht : t < b.created)
    (hinv : ThreadInv b' t) (hphase : (b'.threads t).phase ≠ .starting)
    (hnodup : b'.arrived.Nodup) (hcounted : b'.latestEmptyCompleteCount = b'.arrived.length)
    (harrived : t ∈ b'.arrived → .blast t b'.recordSerial 2 .empty ∈ b'.log)
    (hhistory : Always Allowed b'.log) : Inv b' where
  threads u hu hstarted := by
    by_cases hne : u = t
    · exact hne ▸ hinv
    · rw [hstep.others u hne] at hstarted
      have hold := h.threads u (hstep.created ▸ hu) hstarted
      exact hold.apart (hstep.apart hold hne)
  silent u hu := by
    have hne : u ≠ t := by
      rintro rfl
      exact hphase (hu (hstep.created.symm ▸ ht))
    rw [hstep.created, hstep.others u hne] at hu
    obtain ⟨habsent, hsilent⟩ := h.silent u hu
    refine ⟨fun hmem => habsent (hstep.arrived u hne hmem), fun g st k hmem => ?_⟩
    rcases hstep.blasts _ hmem with hold | ⟨_, _, _, heq⟩
    · exact hsilent g st k hold
    · cases heq
      exact hne rfl
  active := by
    rw [hstep.active, hstep.created]
    exact h.active
  recordIndex := by
    rw [hstep.index, hstep.record]
    exact h.recordIndex
  record_le := by
    rw [hstep.record, hstep.written]
    exact h.record_le
  emptyJobs := by
    rw [hstep.written, hstep.jobs, hstep.record, hstep.latest, hstep.update]
    exact h.emptyJobs
  nodup := hnodup
  arrived u hmem := by
    by_cases hne : u = t
    · subst hne
      exact harrived hmem
    · rw [hstep.record]
      exact hstep.grows (h.arrived u (hstep.arrived u hne hmem))
  counted := hcounted
  opened hready := by
    rw [hstep.ready] at hready
    obtain ⟨n, hmem⟩ := h.opened hready
    rw [hstep.record]
    exact ⟨n, hstep.grows hmem⟩
  history := hhistory

@[simp] theorem setThread_self (b : EmptyBarrier) (t : Nat) (thread : BarrierThread) :
    (b.setThread t thread).threads t = thread := Function.update_self _ _ _

theorem setThread_of_ne {u : Nat} {thread : BarrierThread} (hne : u ≠ t) :
    (b.setThread t thread).threads u = b.threads u := Function.update_of_ne hne _ _

theorem ownStep_setThread (b : EmptyBarrier) (t : Nat) (thread : BarrierThread) :
    OwnStep b (b.setThread t thread) t where
  others _ hne := setThread_of_ne hne
  latest := rfl
  jobs := rfl
  update := rfl
  created := rfl
  active := rfl
  index := rfl
  ready := rfl
  record := rfl
  grows := List.Subset.refl _
  blasts _ hmem := .inl hmem
  arrived _ _ hmem := hmem

/-- A step that changes the record of a thread only. -/
theorem Inv.setThread {thread : BarrierThread} (h : Inv b) (ht : t < b.created)
    (hinv : ThreadInv (b.setThread t thread) t) (hphase : thread.phase ≠ .starting) :
    Inv (b.setThread t thread) :=
  h.own (ownStep_setThread b t thread) ht hinv (by rwa [setThread_self]) h.nodup h.counted
    (h.arrived t) h.history

theorem written_lt (b : EmptyBarrier) : b.written < b.latest + 256 := by
  unfold EmptyBarrier.written
  split <;> omega

theorem Inv.init (h : Inv b) (hphase : b.InPhase t .starting) : Inv (b.init t) := by
  obtain ⟨ht, hstarting⟩ := hphase
  obtain ⟨habsent, hsilent⟩ := h.silent t fun _ => hstarting
  refine h.setThread ht ?_ (by simp)
  constructor <;> rw [setThread_self]
  · rfl
  · exact Nat.le_refl _
  · exact written_lt b
  · exact fun g st k hmem => absurd hmem (hsilent g st k)
  · exact fun hnew => Bool.noConfusion hnew
  · exact fun hworked => TurnPhase.noConfusion hworked
  · exact fun hmem => absurd hmem habsent

theorem Inv.pick {now : UInt64} (h : Inv b) (hphase : b.InPhase t .resting) :
    Inv (b.pick t now) := by
  obtain ⟨ht, hresting⟩ := hphase
  have hinv := h.threads t ht (by simp [hresting])
  refine h.setThread ht ?_ (by simp)
  rcases WorkThread.pickUp_cases (b.threads t).work (slotOf b.latest) b.jobs with
    ⟨hindex, hnew, hlast⟩ | ⟨hne, hindex, hnew, hlast⟩
  · rw [if_pos hindex]
    constructor <;> rw [setThread_self]
    · exact hindex.trans hinv.index
    · exact hinv.behind
    · exact hinv.window
    · intro g st k hmem
      simp only [WorkThread.atTime, hnew, hlast]
      exact hinv.past g st k hmem
    · simp only [WorkThread.atTime, hnew, hlast]
      exact hinv.waits
    · exact fun hworked => TurnPhase.noConfusion hworked
    · exact fun _ hworked => TurnPhase.noConfusion hworked
  · have hdiffers : (b.threads t).serial ≠ b.latest := by
      rintro heq
      exact hne (heq ▸ hinv.index.symm)
    have hnewer : (b.threads t).serial < b.latest := Nat.lt_of_le_of_ne hinv.behind hdiffers
    rw [if_neg (by rw [hindex]; exact hne)]
    constructor <;> rw [setThread_self]
    · exact hindex
    · exact Nat.le_refl _
    · exact written_lt b
    · intro g st k hmem
      rcases hinv.past g st k hmem with hlt | ⟨heq, -⟩
      · exact .inl (hlt.trans hnewer)
      · exact .inl (heq ▸ hnewer)
    · intro _ htwo hempty
      simp only [WorkThread.atTime, hlast htwo] at hempty
      cases hempty
    · exact fun hworked => TurnPhase.noConfusion hworked
    · exact fun _ hworked => TurnPhase.noConfusion hworked

/-- A job with empty work that a thread holds is the one that is waited for, or an older one. -/
theorem Inv.emptyJob (h : Inv b) (hinv : ThreadInv b t)
    (hstate : (b.jobs (slotOf (b.threads t).serial)).jobState < 4) :
    (b.jobs (slotOf (b.threads t).serial)).jobState = 2 ∧
      (b.threads t).serial ≤ b.recordSerial := by
  have hbehind := hinv.behind
  obtain ⟨htwo, hle | ⟨heq, -⟩⟩ :=
    h.emptyJobs _ (hbehind.trans (latest_le_written b)) hinv.window hstate
  · exact ⟨htwo, hle⟩
  · omega

theorem ownStep_work (b : EmptyBarrier) (t : Nat) (clients : Subscribers) :
    OwnStep b (b.work cfg t clients) t where
  others _ hne := setThread_of_ne hne
  latest := rfl
  jobs := rfl
  update := rfl
  created := rfl
  active := rfl
  index := rfl
  ready := rfl
  record := rfl
  grows := List.subset_append_right _ _
  blasts e hmem := by
    rcases List.mem_append.mp hmem with hnew | hold
    · rw [Option.mem_toList, Option.map_eq_some_iff] at hnew
      obtain ⟨kind, -, rfl⟩ := hnew
      exact .inr ⟨_, _, _, rfl⟩
    · exact .inl hold
  arrived _ _ hmem := hmem

/-- What a thread does about its job, and what is recorded of it. -/
theorem work_cases (hinv : ThreadInv b t) (cfg : Nat → PaceConfig) (clients : Subscribers) :
    let serial := (b.threads t).serial
    let s := (b.threads t).work
    let jobState := (b.jobs (slotOf serial)).jobState
    ∃ done : WorkDone,
      (b.work cfg t clients).threads t = ⟨done.after, .worked done.blast, serial⟩ ∧
      (b.work cfg t clients).log =
        (done.blast.map (BarrierEvent.blast t serial jobState)).toList ++ b.log ∧
      done.after.latestStratumJobIndex = slotOf serial ∧
      ((done.blast = none ∧
          (done.after.newJob = true → s.newJob = true ∧
            done.after.lastWasEmpty = s.lastWasEmpty)) ∨
        (done.blast = some .empty ∧ s.newJob = true ∧
          (jobState = 1 ∧ done.after.newJob = false ∨
            jobState = 2 ∧ s.lastWasEmpty = false ∧ done.after.lastWasEmpty = true)) ∨
        (done.blast = some .full ∧ s.newJob = true ∧ done.after.newJob = false ∧
          (jobState = 2 → s.lastWasEmpty = true ∧ b.latestEmptyReadyForFull = true))) := by
  intro serial s jobState
  obtain ⟨hindex, hdone⟩ := WorkThread.workOn_cases s (cfg t) clients (b.jobs (slotOf serial))
    b.latestEmptyReadyForFull
  refine ⟨s.workOn (cfg t) clients (b.jobs (slotOf serial)) b.latestEmptyReadyForFull, ?_, ?_,
    hindex.trans hinv.index, hdone⟩
  · simp [EmptyBarrier.work, hinv.index, s, serial]
  · simp [EmptyBarrier.work, hinv.index, s, serial, jobState]

/-- What a thread has sent is allowed, and agrees with the flags it is left with. -/
structure SentWell (b : EmptyBarrier) (t : Nat) (done : WorkDone) (log : List BarrierEvent) :
    Prop where
  history : Always Allowed log
  past : ∀ g st k, .blast t g st k ∈ log → g < (b.threads t).serial ∨
    g = (b.threads t).serial ∧ (done.after.newJob = true → k = .empty ∧
      (b.jobs (slotOf (b.threads t).serial)).jobState = 2 ∧ done.after.lastWasEmpty = true)
  waits : done.after.newJob = true → (b.jobs (slotOf (b.threads t).serial)).jobState = 2 →
    done.after.lastWasEmpty = true → .blast t (b.threads t).serial 2 .empty ∈ log
  emptied : done.blast = some .empty →
    (b.threads t).serial ≤ b.recordSerial ∧ .blast t (b.threads t).serial 2 .empty ∈ log
  once : t ∈ b.arrived → done.blast = some .empty → (b.threads t).serial ≠ b.recordSerial

variable {done : WorkDone}

theorem Inv.sentNothing (h : Inv b) (hinv : ThreadInv b t) (hblast : done.blast = none)
    (hkept : done.after.newJob = true → (b.threads t).work.newJob = true ∧
      done.after.lastWasEmpty = (b.threads t).work.lastWasEmpty) :
    SentWell b t done b.log where
  history := h.history
  past g st k hmem := by
    rcases hinv.past g st k hmem with hlt | ⟨heq, hflags⟩
    · exact .inl hlt
    · refine .inr ⟨heq, fun hnew => ?_⟩
      obtain ⟨hold, hlast⟩ := hkept hnew
      rw [hlast]
      exact hflags hold
  waits hnew htwo hlast := by
    obtain ⟨hold, hsame⟩ := hkept hnew
    exact hinv.waits hold htwo (hsame ▸ hlast)
  emptied hempty := by simp [hblast] at hempty
  once _ hempty := by simp [hblast] at hempty

theorem Inv.sentEmpty (h : Inv b) (hinv : ThreadInv b t)
    (hnew : (b.threads t).work.newJob = true)
    (htwo : (b.jobs (slotOf (b.threads t).serial)).jobState = 2)
    (hnot : (b.threads t).work.lastWasEmpty = false) (hlast : done.after.lastWasEmpty = true) :
    SentWell b t done (.blast t (b.threads t).serial 2 .empty :: b.log) := by
  -- Nothing of the job was sent yet, as the last work was not empty.
  have hfresh : ∀ g st k, .blast t g st k ∈ b.log → g < (b.threads t).serial := by
    intro g st k hmem
    rcases hinv.past g st k hmem with hlt | ⟨-, hflags⟩
    · exact hlt
    · rw [(hflags hnew).2.2] at hnot
      cases hnot
  refine ⟨.cons ⟨?_, ?_⟩ h.history, ?_, ?_, ?_, ?_⟩
  · exact fun g st k hmem => .inl (hfresh g st k hmem)
  · intro _ hfull
    cases hfull
  · intro g st k hmem
    rcases List.mem_cons.mp hmem with heq | hold
    · cases heq
      exact .inr ⟨rfl, fun _ => ⟨rfl, htwo, hlast⟩⟩
    · exact .inl (hfresh g st k hold)
  · exact fun _ _ _ => List.mem_cons_self
  · exact fun _ => ⟨(h.emptyJob hinv (by omega)).2, List.mem_cons_self⟩
  · intro hmem _ heq
    exact Nat.lt_irrefl _ (heq ▸ hfresh _ _ _ (h.arrived t hmem))

theorem Inv.sentFull (h : Inv b) (hinv : ThreadInv b t) (hblast : done.blast = some .full)
    (hnew : (b.threads t).work.newJob = true) (hdone : done.after.newJob = false)
    (hmay : (b.jobs (slotOf (b.threads t).serial)).jobState = 2 →
      (b.threads t).work.lastWasEmpty = true ∧ b.latestEmptyReadyForFull = true) :
    SentWell b t done (.blast t (b.threads t).serial
      (b.jobs (slotOf (b.threads t).serial)).jobState .full :: b.log) := by
  refine ⟨.cons ⟨?_, ?_⟩ h.history, ?_, ?_, ?_, ?_⟩
  · intro g st k hmem
    rcases hinv.past g st k hmem with hlt | ⟨heq, hflags⟩
    · exact .inl hlt
    · exact .inr ⟨heq, (hflags hnew).1, rfl⟩
  · intro htwo _
    obtain ⟨hlast, hready⟩ := hmay htwo
    obtain ⟨n, hopened⟩ := h.opened hready
    exact ⟨hinv.waits hnew htwo hlast, b.recordSerial, n, (h.emptyJob hinv (by omega)).2,
      hopened⟩
  · intro g st k hmem
    rcases List.mem_cons.mp hmem with heq | hold
    · cases heq
      exact .inr ⟨rfl, fun hstill => by simp [hdone] at hstill⟩
    · rcases hinv.past g st k hold with hlt | ⟨heq, -⟩
      · exact .inl hlt
      · exact .inr ⟨heq, fun hstill => by simp [hdone] at hstill⟩
  · intro hstill
    simp [hdone] at hstill
  · intro hempty
    simp [hblast] at hempty
  · intro _ hempty
    simp [hblast] at hempty

theorem Inv.work {clients : Subscribers} (h : Inv b) (hphase : b.InPhase t .picked) :
    Inv (b.work cfg t clients) := by
  obtain ⟨ht, hpicked⟩ := hphase
  have hinv := h.threads t ht (by simp [hpicked])
  have hstep : OwnStep b (b.work cfg t clients) t := ownStep_work b t clients
  obtain ⟨done, hthread, hlog, hindex, hdone⟩ := work_cases hinv cfg clients
  have hsent : SentWell b t done (b.work cfg t clients).log := by
    rw [hlog]
    rcases hdone with
      ⟨hblast, hkept⟩ | ⟨hblast, hnew, hstate⟩ | ⟨hblast, hnew, hafter, hmay⟩
    · rw [hblast]
      exact h.sentNothing hinv hblast hkept
    · have htwo := (h.emptyJob hinv (by omega)).1
      rcases hstate with ⟨hone, -⟩ | ⟨-, hnot, hlast⟩
      · omega
      · rw [hblast, htwo]
        exact h.sentEmpty hinv hnew htwo hnot hlast
    · rw [hblast]
      exact h.sentFull hinv hblast hnew hafter hmay
  refine h.own hstep ht ?_ (by simp [hthread]) h.nodup h.counted
    (fun hmem => hstep.grows (h.arrived t hmem)) hsent.history
  constructor <;> rw [hthread]
  · exact hindex
  · exact hinv.behind
  · exact hstep.written ▸ hinv.window
  · exact hsent.past
  · exact hsent.waits
  · exact fun hworked => hsent.emptied (TurnPhase.worked.inj hworked)
  · exact fun hmem hworked => hsent.once hmem (TurnPhase.worked.inj hworked)

/-- A thread that is counted has sent the empty work that is waited for, and was not counted
    before. -/
theorem Inv.arriving (h : Inv b) (hinv : ThreadInv b t)
    (hphase : (b.threads t).phase = .worked (some .empty))
    (hindex : b.latestEmptyJobIndex = (b.threads t).work.latestStratumJobIndex) :
    (b.threads t).serial = b.recordSerial ∧ t ∉ b.arrived := by
  rw [h.recordIndex, hinv.index] at hindex
  have hlt := Nat.lt_of_le_of_lt h.record_le hinv.window
  have hserial := slotOf_inj (hinv.emptied hphase).1 hlt hindex.symm
  exact ⟨hserial, fun hmem => hinv.once hmem hphase hserial⟩

/-- A turn ends, with a count where the empty work of the job that is waited for was sent. -/
theorem finish_cases (b : EmptyBarrier) (cfg : Nat → PaceConfig) (t : Nat) (clients : Subscribers)
    (blast : Option Blast) :
    let thread := b.threads t
    let rested := b.setThread t
      { thread with work := (thread.work.pace (cfg t) clients).after, phase := .resting }
    b.finish cfg t clients blast = rested ∨
      blast = some .empty ∧ b.latestEmptyJobIndex = thread.work.latestStratumJobIndex ∧
        b.finish cfg t clients blast =
          { rested with
            latestEmptyCompleteCount := b.latestEmptyCompleteCount + 1
            arrived := t :: b.arrived } := by
  intro thread rested
  by_cases hempty : blast = some .empty
  · by_cases hcounts : b.latestEmptyJobIndex = thread.work.latestStratumJobIndex ∧
        b.latestEmptyReadyForFull = false
    · refine .inr ⟨hempty, hcounts.1, ?_⟩
      simp only [EmptyBarrier.finish, if_pos hempty, incrementComplete, thread, if_pos hcounts,
        rested, EmptyBarrier.setThread]
    · refine .inl ?_
      simp only [EmptyBarrier.finish, if_pos hempty, incrementComplete, thread, if_neg hcounts,
        rested]
  · refine .inl ?_
    simp only [EmptyBarrier.finish, if_neg hempty, thread, rested]

theorem ownStep_finish (b : EmptyBarrier) (cfg : Nat → PaceConfig) (t : Nat)
    (clients : Subscribers)
    (blast : Option Blast) :
    OwnStep b (b.finish cfg t clients blast) t ∧ (b.finish cfg t clients blast).log = b.log := by
  have hrested := ownStep_setThread b t { b.threads t with
    work := ((b.threads t).work.pace (cfg t) clients).after, phase := .resting }
  rcases finish_cases b cfg t clients blast with heq | ⟨-, -, heq⟩
  · rw [heq]
    exact ⟨hrested, rfl⟩
  · rw [heq]
    exact ⟨{ hrested with
      arrived := fun u hne hmem => (List.mem_cons.mp hmem).resolve_left hne }, rfl⟩

/-- Handing out clients one by one leaves what a thread has sent to all. -/
theorem ThreadInv.rested {clients : Subscribers} (hinv : ThreadInv b t) (cfg : PaceConfig)
    (hthread : b'.threads t = { b.threads t with
      work := ((b.threads t).work.pace cfg clients).after, phase := .resting })
    (hstep : OwnStep b b' t) (hlog : b'.log = b.log) : ThreadInv b' t := by
  obtain ⟨hindex, hnew, hlast⟩ := WorkThread.pace_keeps (b.threads t).work cfg clients
  constructor <;> rw [hthread]
  · exact hindex.trans hinv.index
  · exact hstep.latest ▸ hinv.behind
  · exact hstep.written ▸ hinv.window
  · simp only [hlog, hstep.jobs, hnew, hlast]
    exact hinv.past
  · simp only [hlog, hstep.jobs, hnew, hlast]
    exact hinv.waits
  · exact fun hworked => TurnPhase.noConfusion hworked
  · exact fun _ hworked => TurnPhase.noConfusion hworked

theorem Inv.finish {clients : Subscribers} {blast : Option Blast} (h : Inv b) (ht : t < b.created)
    (hphase : (b.threads t).phase = .worked blast) : Inv (b.finish cfg t clients blast) := by
  have hinv := h.threads t ht (by simp [hphase])
  obtain ⟨hstep, hlog⟩ := ownStep_finish b cfg t clients blast
  rcases finish_cases b cfg t clients blast with heq | ⟨hempty, hindex, heq⟩
  · rw [heq] at hstep hlog ⊢
    exact h.setThread ht (hinv.rested (cfg t) (setThread_self _ _ _) hstep hlog) (by simp)
  · rw [heq] at hstep ⊢
    obtain ⟨hserial, habsent⟩ := h.arriving hinv (hempty ▸ hphase) hindex
    refine h.own hstep ht (hinv.rested (cfg t) (setThread_self _ _ _) hstep rfl)
      (by rw [setThread_self]; simp) (List.nodup_cons.mpr ⟨habsent, h.nodup⟩) ?_ ?_ h.history
    · exact congrArg (· + 1) h.counted
    · intro _
      exact hserial ▸ (hinv.emptied (hempty ▸ hphase)).2

/-! ## Whole runs -/

theorem Inv.step {action : BarrierAction} (h : Inv b) (hkeeps : b.KeepsUp action)
    (hstep : (system cfg).step b action = some b') : Inv b' := by
  cases action with
  | write cause height tsms =>
    obtain ⟨hidle, heq⟩ := Option.ite_none_right_eq_some.mp hstep
    cases heq
    exact h.write hidle (hkeeps rfl)
  | resetEmpty =>
    obtain ⟨hwritten, heq⟩ := Option.ite_none_right_eq_some.mp hstep
    cases heq
    exact h.resetEmpty hwritten
  | publish =>
    obtain ⟨hready, heq⟩ := Option.ite_none_right_eq_some.mp hstep
    cases heq
    exact h.publish hready
  | coinbaserDone slot =>
    cases hstep
    exact h.coinbaserDone
  | create =>
    obtain ⟨hcounted, heq⟩ := Option.ite_none_right_eq_some.mp hstep
    cases heq
    exact h.create hcounted
  | count =>
    obtain ⟨hmore, heq⟩ := Option.ite_none_right_eq_some.mp hstep
    cases heq
    exact h.count hmore
  | init t =>
    obtain ⟨hphase, heq⟩ := Option.ite_none_right_eq_some.mp hstep
    cases heq
    exact h.init hphase
  | pick t now =>
    obtain ⟨hphase, heq⟩ := Option.ite_none_right_eq_some.mp hstep
    cases heq
    exact h.pick hphase
  | work t clients =>
    obtain ⟨hphase, heq⟩ := Option.ite_none_right_eq_some.mp hstep
    cases heq
    exact h.work hphase
  | finish t clients =>
    simp only [system, EmptyBarrier.step] at hstep
    split at hstep
    · next blast hphase =>
      obtain ⟨ht, heq⟩ := Option.ite_none_right_eq_some.mp hstep
      cases heq
      exact h.finish ht hphase
    · cases hstep
  | judge =>
    cases hstep
    exact h.judge

/-- The states that the gateway gets to, as long as no thread falls a whole ring behind. -/
def Reached (cfg : Nat → PaceConfig) : EmptyBarrier → Prop :=
  (system cfg).ReachedBy KeepsUp fun b => ∃ height tsms jobs, b = .first height tsms jobs

theorem Reached.inv (h : Reached cfg b) : Inv b := by
  refine System.ReachedBy.invariant ?_ ?_ h
  · rintro _ ⟨height, tsms, jobs, rfl⟩
    exact Inv.first height tsms jobs
  · intro b action b' hinv hkeeps hstep
    exact hinv.step hkeeps hstep

/-- A thread sends a job at most once as empty and at most once as full work, the full work
    behind the empty, and never an older job behind a newer one. -/
theorem blasts_in_order (h : Reached cfg b) :
    b.log.Pairwise fun new old => ∀ t g st k g' st' k', new = .blast t g st k →
      old = .blast t g' st' k' → g' < g ∨ g' = g ∧ k' = .empty ∧ k = .full := by
  refine h.inv.history.pairwise ?_
  rintro _ before hallowed _ hold t g st k g' st' k' rfl rfl
  exact hallowed.1 g' st' k' hold

/-- Full work of a job with empty work is sent behind the empty work of the same thread, and
    behind that of all threads that were created when it was let through, but for one: the
    empty work of this job or of one that came later. -/
theorem full_behind_empty (h : Reached cfg b) {later before : List BarrierEvent} {t serial : Nat}
    (hlog : b.log = later ++ .blast t serial 2 .full :: before) :
    .blast t serial 2 .empty ∈ before ∧
      ∃ awaited created late between rest, serial ≤ awaited ∧
        before = between ++ .opened awaited created :: rest ∧
        ∀ u < created, u ≠ late → .blast u awaited 2 .empty ∈ rest := by
  have hhistory := h.inv.history
  rw [hlog] at hhistory
  obtain ⟨hown, awaited, created, hle, hopened⟩ := hhistory.at_event.2 rfl rfl
  obtain ⟨between, rest, rfl⟩ := List.append_of_mem hopened
  rw [← List.cons_append, ← List.append_assoc] at hhistory
  obtain ⟨late, hlate⟩ := hhistory.at_event
  exact ⟨hown, awaited, created, late, between, rest, hle, rfl, hlate⟩

/-! ## Full work that is never let through -/

/-- A thread is behind the job that is waited for without having sent its empty work. -/
structure PassedOver (b : EmptyBarrier) (t : Nat) : Prop where
  created : t < b.created
  started : (b.threads t).phase ≠ .starting
  absent : t ∉ b.arrived
  past : b.recordSerial < (b.threads t).serial ∨ b.recordSerial = (b.threads t).serial ∧
    (b.threads t).work.newJob = false ∧ (b.threads t).phase ≠ .worked (some .empty)

/-- A thread that starts when the job is published has nothing to send of it. -/
theorem passedOver_init (h : Inv b) (hphase : b.InPhase t .starting)
    (hpublished : b.recordSerial ≤ b.latest) : PassedOver (b.init t) t := by
  have habsent := (h.silent t fun _ => hphase.2).1
  have hthread : (b.init t).threads t =
      ⟨WorkThread.init (slotOf b.latest), .resting, b.latest⟩ :=
    setThread_self _ _ _
  refine ⟨hphase.1, by simp [hthread], habsent, ?_⟩
  rw [hthread]
  rcases Nat.lt_or_eq_of_le hpublished with hlt | heq
  · exact .inl hlt
  · exact .inr ⟨heq, rfl, by simp⟩

/-- Too few threads can still be counted: `n` were created, one of them was passed over, and
    so is every one that starts later. -/
structure Closed (log : List BarrierEvent) (n t : Nat) (b : EmptyBarrier) : Prop where
  inv : Inv b
  published : b.recordSerial ≤ b.latest
  notReady : b.latestEmptyReadyForFull = false
  member : t < n
  enough : n ≤ b.datumActiveThreads
  passed : PassedOver b t
  newcomers : ∀ u, n ≤ u → u < b.created → (b.threads u).phase ≠ .starting →
    PassedOver b u
  grown : ∃ new, b.log = new ++ log ∧ ∀ u g, .blast u g 2 .full ∉ new

theorem Closed.arrived_lt {log : List BarrierEvent} {n : Nat} (h : Closed log n t b) :
    b.latestEmptyCompleteCount < b.datumActiveThreads := by
  have hsub : t :: b.arrived ⊆ List.range n := by
    intro u hu
    rw [List.mem_range]
    rcases List.mem_cons.mp hu with rfl | hmem
    · exact h.member
    · by_contra hge
      obtain ⟨hlt, hstarted⟩ := h.inv.lt_created hmem
      exact (h.newcomers u (not_lt.mp hge) hlt hstarted).absent hmem
  have hnodup : (t :: b.arrived).Nodup := List.nodup_cons.mpr ⟨h.passed.absent, h.inv.nodup⟩
  have hle := (hnodup.subperm hsub).length_le
  rw [List.length_cons, List.length_range, ← h.inv.counted] at hle
  exact Nat.lt_of_lt_of_le hle h.enough

/-- A step of the template thread, or the start of a thread. -/
structure Quiet (b b' : EmptyBarrier) : Prop where
  threads : ∀ u < b.created, b'.threads u = b.threads u
  fresh : ∀ u < b'.created, b.created ≤ u → (b'.threads u).phase = .starting
  arrived : b'.arrived = b.arrived
  record : b'.recordSerial = b.recordSerial
  ready : b'.latestEmptyReadyForFull = b.latestEmptyReadyForFull
  log : b'.log = b.log
  latest : b.latest ≤ b'.latest
  created : b.created ≤ b'.created
  active : b.datumActiveThreads ≤ b'.datumActiveThreads

section Closed

variable {log : List BarrierEvent} {n u : Nat}

theorem PassedOver.quiet (h : PassedOver b t) (hquiet : Quiet b b') : PassedOver b' t := by
  have hthread := hquiet.threads t h.created
  refine ⟨Nat.lt_of_lt_of_le h.created hquiet.created, ?_, ?_, ?_⟩
  · rw [hthread]
    exact h.started
  · rw [hquiet.arrived]
    exact h.absent
  · rw [hthread, hquiet.record]
    exact h.past

theorem Closed.quiet (h : Closed log n t b) (hquiet : Quiet b b') (hinv : Inv b') :
    Closed log n t b' where
  inv := hinv
  published := by
    rw [hquiet.record]
    exact h.published.trans hquiet.latest
  notReady := hquiet.ready.trans h.notReady
  member := h.member
  enough := h.enough.trans hquiet.active
  passed := h.passed.quiet hquiet
  newcomers u hu hcreated hstarted := by
    by_cases hold : u < b.created
    · rw [hquiet.threads u hold] at hstarted
      exact (h.newcomers u hu hold hstarted).quiet hquiet
    · exact absurd (hquiet.fresh u hcreated (not_lt.mp hold)) hstarted
  grown := by
    rw [hquiet.log]
    exact h.grown

theorem PassedOver.own (h : PassedOver b u) (hstep : OwnStep b b' t) (hne : u ≠ t) :
    PassedOver b' u := by
  refine ⟨hstep.created.symm ▸ h.created, ?_, fun hmem => h.absent (hstep.arrived u hne hmem),
    ?_⟩
  · rw [hstep.others u hne]
    exact h.started
  · rw [hstep.others u hne, hstep.record]
    exact h.past

/-- A step of a thread that leaves it passed over, or makes it so. -/
theorem Closed.own (h : Closed log n t b) (hstep : OwnStep b b' u) (hinv : Inv b')
    (hpassed : PassedOver b u ∨ (b.threads u).phase = .starting → PassedOver b' u)
    (hlog : ∃ new, b'.log = new ++ b.log ∧ ∀ v g, .blast v g 2 .full ∉ new) :
    Closed log n t b' where
  inv := hinv
  published := by
    rw [hstep.record, hstep.latest]
    exact h.published
  notReady := hstep.ready.trans h.notReady
  member := h.member
  enough := hstep.active.symm ▸ h.enough
  passed := by
    by_cases hne : t = u
    · subst hne
      exact hpassed (.inl h.passed)
    · exact h.passed.own hstep hne
  newcomers v hv hcreated hstarted := by
    rw [hstep.created] at hcreated
    by_cases hne : v = u
    · subst hne
      by_cases hold : (b.threads v).phase = .starting
      · exact hpassed (.inr hold)
      · exact hpassed (.inl (h.newcomers v hv hcreated hold))
    · rw [hstep.others v hne] at hstarted
      exact (h.newcomers v hv hcreated hstarted).own hstep hne
  grown := by
    obtain ⟨new, hnew, hnone⟩ := h.grown
    obtain ⟨newer, hnewer, hnoner⟩ := hlog
    refine ⟨newer ++ new, by rw [hnewer, hnew, List.append_assoc], fun v g hmem => ?_⟩
    rcases List.mem_append.mp hmem with hfirst | hsecond
    · exact hnoner v g hfirst
    · exact hnone v g hsecond

theorem PassedOver.pick {now : UInt64} (h : PassedOver b t) (hinv : ThreadInv b t) :
    PassedOver (b.pick t now) t := by
  refine ⟨h.created, by simp [EmptyBarrier.pick], h.absent, ?_⟩
  simp only [EmptyBarrier.pick, setThread_self]
  rcases WorkThread.pickUp_cases (b.threads t).work (slotOf b.latest) b.jobs with
    ⟨hindex, hnew, -⟩ | ⟨hne, hindex, -, -⟩
  · rw [if_pos hindex]
    rcases h.past with hlt | ⟨heq, hold, -⟩
    · exact .inl hlt
    · exact .inr ⟨heq, hnew.trans hold, by simp⟩
  · rw [if_neg (by rw [hindex]; exact hne)]
    have hdiffers : (b.threads t).serial ≠ b.latest := by
      rintro heq
      exact hne (heq ▸ hinv.index.symm)
    have hbehind := hinv.behind
    have hrecord : b.recordSerial ≤ (b.threads t).serial := by
      rcases h.past with hlt | ⟨heq, -⟩
      · exact Nat.le_of_lt hlt
      · exact Nat.le_of_eq heq
    refine .inl ?_
    show b.recordSerial < b.latest
    omega

theorem PassedOver.work {clients : Subscribers} (h : PassedOver b t) (hinv : ThreadInv b t) :
    PassedOver (b.work cfg t clients) t := by
  obtain ⟨done, hthread, -, -, hdone⟩ := work_cases hinv cfg clients
  refine ⟨h.created, by simp [hthread], h.absent, ?_⟩
  rw [hthread]
  rcases h.past with hlt | ⟨heq, hold, -⟩
  · exact .inl hlt
  · rcases hdone with ⟨hblast, hkept⟩ | ⟨-, hnew, -⟩ | ⟨-, hnew, -⟩
    · refine .inr ⟨heq, ?_, by simp [hblast]⟩
      by_contra hnew
      rw [Bool.not_eq_false] at hnew
      rw [(hkept hnew).1] at hold
      cases hold
    · rw [hnew] at hold
      cases hold
    · rw [hnew] at hold
      cases hold

theorem PassedOver.finish {clients : Subscribers} {blast : Option Blast} (h : PassedOver b t)
    (hinv : Inv b) (hphase : (b.threads t).phase = .worked blast) :
    PassedOver (b.finish cfg t clients blast) t := by
  have hrested : PassedOver (b.setThread t { b.threads t with
      work := ((b.threads t).work.pace (cfg t) clients).after, phase := .resting }) t := by
    refine ⟨h.created, by simp, h.absent, ?_⟩
    rw [setThread_self]
    rcases h.past with hlt | ⟨heq, hold, -⟩
    · exact .inl hlt
    · exact .inr ⟨heq, (WorkThread.pace_keeps _ _ _).2.1.trans hold, by simp⟩
  rcases finish_cases b cfg t clients blast with heq | ⟨hempty, hindex, -⟩
  · rw [heq]
    exact hrested
  · have hthread := hinv.threads t h.created h.started
    rw [hempty] at hphase
    obtain ⟨hserial, -⟩ := hinv.arriving hthread hphase hindex
    rcases h.past with hlt | ⟨-, -, hnot⟩
    · omega
    · exact absurd hphase hnot

/-- Without being let through, a thread sends no full work of a job with empty work. -/
theorem notFull_work (hthread : ThreadInv b u) (hnot : b.latestEmptyReadyForFull = false)
    (clients : Subscribers) :
    ∃ new, (b.work cfg u clients).log = new ++ b.log ∧ ∀ v g, .blast v g 2 .full ∉ new := by
  obtain ⟨done, -, hlog, -, hdone⟩ := work_cases hthread cfg clients
  refine ⟨_, hlog, fun v g hmem => ?_⟩
  rw [Option.mem_toList, Option.map_eq_some_iff] at hmem
  obtain ⟨kind, hkind, heq⟩ := hmem
  simp only [BarrierEvent.blast.injEq] at heq
  obtain ⟨-, -, htwo, rfl⟩ := heq
  rcases hdone with ⟨hblast, -⟩ | ⟨hblast, -⟩ | ⟨-, -, -, hmay⟩
  · rw [hblast] at hkind
    cases hkind
  · rw [hblast] at hkind
    cases hkind
  · have hready := (hmay htwo).2
    rw [hnot] at hready
    cases hready

theorem Closed.step {action : BarrierAction} (h : Closed log n t b) (hkeeps : b.KeepsUp action)
    (hreset : action ≠ .resetEmpty) (hstep : (system cfg).step b action = some b') :
    Closed log n t b' := by
  have hinv : Inv b' := h.inv.step hkeeps hstep
  have hsame : ∃ new, b.log = new ++ b.log ∧ ∀ v g, BarrierEvent.blast v g 2 .full ∉ new :=
    ⟨[], rfl, fun _ _ => List.not_mem_nil⟩
  have hstarted {phase : TurnPhase} {u : Nat} (hphase : b.InPhase u phase)
      (hnot : phase ≠ .starting) : ThreadInv b u :=
    h.inv.threads u hphase.1 (hphase.2.symm ▸ hnot)
  cases action with
  | write cause height tsms =>
    obtain ⟨-, heq⟩ := Option.ite_none_right_eq_some.mp hstep
    cases heq
    exact h.quiet ⟨fun _ _ => rfl, fun u hu hge => absurd hu (not_lt.mpr hge), rfl, rfl, rfl, rfl,
      Nat.le_refl _, Nat.le_refl _, Nat.le_refl _⟩ hinv
  | resetEmpty => exact absurd rfl hreset
  | publish =>
    obtain ⟨-, heq⟩ := Option.ite_none_right_eq_some.mp hstep
    cases heq
    exact h.quiet ⟨fun _ _ => rfl, fun u hu hge => absurd hu (not_lt.mpr hge), rfl, rfl, rfl, rfl,
      Nat.le_succ _, Nat.le_refl _, Nat.le_refl _⟩ hinv
  | coinbaserDone slot =>
    cases hstep
    exact h.quiet ⟨fun _ _ => rfl, fun u hu hge => absurd hu (not_lt.mpr hge), rfl, rfl, rfl, rfl,
      Nat.le_refl _, Nat.le_refl _, Nat.le_refl _⟩ hinv
  | create =>
    obtain ⟨-, heq⟩ := Option.ite_none_right_eq_some.mp hstep
    cases heq
    refine h.quiet ⟨fun u hu => Function.update_of_ne (Nat.ne_of_lt hu) _ _, ?_, rfl, rfl, rfl,
      rfl,
      Nat.le_refl _, Nat.le_succ _, Nat.le_refl _⟩ hinv
    intro u hu hge
    have heq : u = b.created := Nat.le_antisymm (Nat.lt_succ_iff.mp hu) hge
    simp [EmptyBarrier.create, heq, startingThread]
  | count =>
    obtain ⟨-, heq⟩ := Option.ite_none_right_eq_some.mp hstep
    cases heq
    exact h.quiet ⟨fun _ _ => rfl, fun u hu hge => absurd hu (not_lt.mpr hge), rfl, rfl, rfl, rfl,
      Nat.le_refl _, Nat.le_refl _, Nat.le_succ _⟩ hinv
  | init u =>
    obtain ⟨hphase, heq⟩ := Option.ite_none_right_eq_some.mp hstep
    cases heq
    exact h.own (ownStep_setThread b u _) hinv
      (fun _ => passedOver_init h.inv hphase h.published) hsame
  | pick u now =>
    obtain ⟨hphase, heq⟩ := Option.ite_none_right_eq_some.mp hstep
    cases heq
    refine h.own (ownStep_setThread b u _) hinv (fun hpassed => ?_) hsame
    rcases hpassed with hpassed | hstarting
    · exact hpassed.pick (hstarted hphase (by simp))
    · exact absurd (hphase.2.symm.trans hstarting) (by simp)
  | work u clients =>
    obtain ⟨hphase, heq⟩ := Option.ite_none_right_eq_some.mp hstep
    cases heq
    have hthread := hstarted hphase (by simp)
    refine h.own (ownStep_work b u clients) hinv (fun hpassed => ?_) ?_
    · rcases hpassed with hpassed | hstarting
      · exact hpassed.work hthread
      · exact absurd (hphase.2.symm.trans hstarting) (by simp)
    · exact notFull_work hthread h.notReady clients
  | finish u clients =>
    simp only [system, EmptyBarrier.step] at hstep
    split at hstep
    · next blast hphase =>
      obtain ⟨hu, heq⟩ := Option.ite_none_right_eq_some.mp hstep
      cases heq
      obtain ⟨hown, hlog⟩ := ownStep_finish b cfg u clients blast
      refine h.own hown hinv (fun hpassed => ?_) (hlog.symm ▸ hsame)
      rcases hpassed with hpassed | hstarting
      · exact hpassed.finish h.inv hphase
      · exact absurd (hphase.symm.trans hstarting) (by simp)
    · cases hstep
  | judge =>
    cases hstep
    have hshut : b.judge = b := if_neg fun hopens => absurd hopens.2 (not_le.mpr h.arrived_lt)
    rw [hshut]
    exact h

/-- Once a thread was passed over, with all threads counted, full work is not let through
    before the count starts again with the next new block, and nobody sends full work of a
    job with empty work. -/
theorem never_opened (h : Reached cfg b) (hnot : b.latestEmptyReadyForFull = false)
    (hpublished : b.recordSerial ≤ b.latest) (hcounted : b.created = b.datumActiveThreads)
    (hpassed : PassedOver b t)
    (hrun : (system cfg).ReachedBy (fun s action => s.KeepsUp action ∧ action ≠ .resetEmpty)
      (· = b) b') :
    b'.latestEmptyReadyForFull = false ∧
      ∃ new, b'.log = new ++ b.log ∧ ∀ u serial, .blast u serial 2 .full ∉ new := by
  have hclosed : Closed b.log b.created t b' := by
    refine hrun.invariant ?_ fun s action s' hinv hcond hstep =>
      hinv.step hcond.1 hcond.2 hstep
    rintro _ rfl
    exact ⟨h.inv, hpublished, hnot, hpassed.created, Nat.le_of_eq hcounted, hpassed,
      fun u hge hlt => absurd hlt (not_lt.mpr hge), [], rfl, fun _ _ => List.not_mem_nil⟩
  exact ⟨hclosed.notReady, hclosed.grown⟩

end Closed

/-! ## A turn by itself -/

/-- Without anything in between, the three parts of a turn are the turn of the loop. -/
theorem turn_eq_loopTurn (b : EmptyBarrier) (cfg : Nat → PaceConfig) (t : Nat) (now : UInt64)
    (clients : Subscribers) :
    let turn := (b.threads t).work.loopTurn (cfg t) clients (slotOf b.latest) b.jobs
      b.latestEmptyReadyForFull now
    let worked := (b.pick t now).work cfg t clients
    (worked.threads t).phase = .worked turn.blast ∧
      ((worked.finish cfg t clients turn.blast).threads t).work = turn.after := by
  intro turn worked
  have hworked : worked.threads t = ⟨(((b.threads t).work.pickUp (slotOf b.latest) b.jobs).atTime
      now |>.workOn (cfg t) clients (b.jobs ((b.threads t).work.pickUp (slotOf b.latest)
        b.jobs).latestStratumJobIndex) b.latestEmptyReadyForFull).after, .worked turn.blast,
      ((b.pick t now).threads t).serial⟩ := by
    simp only [worked, EmptyBarrier.work, EmptyBarrier.pick, setThread_self, turn,
      WorkThread.loopTurn]
    rfl
  refine ⟨by rw [hworked], ?_⟩
  rcases finish_cases worked cfg t clients turn.blast with heq | ⟨-, -, heq⟩
  · rw [heq, setThread_self, hworked]
    rfl
  · rw [heq, setThread_self, hworked]
    rfl

/-! ## Two threads -/

/-- Every thread has eight slots. -/
def sameSlots : Nat → PaceConfig := fun _ => eightSlots

/-- The first job of all. -/
def firstBarrier : EmptyBarrier := first 0 1000 fun _ => normalJob

/-- The second thread sends work of the new block before it is counted. -/
def uncounted : List BarrierAction :=
  [.create, .count, .init 0, .create, .init 1, .write .emptyPlus 0 1000, .resetEmpty, .publish,
    .pick 1 1000, .work 1 twoSubscribers, .finish 1 twoSubscribers, .judge,
    .pick 1 1000, .work 1 twoSubscribers]

theorem reached_of_replay (actions : List BarrierAction) (test : EmptyBarrier → Bool)
    (htest : ((system sameSlots).replay (fun b action => b.KeepsUp action) firstBarrier
      actions).any test = true) : ∃ b, Reached sameSlots b ∧ test b = true :=
  (system sameSlots).exists_reachedBy_of_replay ⟨0, 1000, fun _ => normalJob, rfl⟩ _
    actions test
    (fun _ _ h => of_decide_eq_true h) htest

theorem blasts_in_order_uncounted : ∃ b, Reached sameSlots b ∧ b.log.length = 3 ∧
    b.log.Pairwise fun new old => ∀ t g st k g' st' k', new = .blast t g st k →
      old = .blast t g' st' k' → g' < g ∨ g' = g ∧ k' = .empty ∧ k = .full := by
  obtain ⟨b, hreached, htest⟩ := reached_of_replay uncounted (fun b => b.log.length = 3)
    (by decide +kernel)
  exact ⟨b, hreached, of_decide_eq_true htest, blasts_in_order hreached⟩

/-- Full work goes out before the first thread has sent its empty work. -/
theorem full_behind_empty_uncounted : ∃ b, Reached sameSlots b ∧
    b.log = [.blast 1 1 2 .full, .opened 1 2, .blast 1 1 2 .empty] ∧
    .blast 1 1 2 .empty ∈ [.opened 1 2, BarrierEvent.blast 1 1 2 .empty] := by
  obtain ⟨b, hreached, htest⟩ := reached_of_replay uncounted
    (fun b => b.log = [.blast 1 1 2 .full, .opened 1 2, .blast 1 1 2 .empty]) (by decide +kernel)
  have hlog := of_decide_eq_true htest
  refine ⟨b, hreached, hlog, ?_⟩
  exact (full_behind_empty hreached (show b.log = [] ++ _ from hlog)).1

/-- A thread that starts before anybody was let through is waited for without end. -/
theorem never_opened_first : ∃ b, Reached sameSlots b ∧ b.datumActiveThreads = 1 ∧
    b.judge.latestEmptyReadyForFull = false := by
  obtain ⟨b, hreached, htest⟩ := reached_of_replay [.create, .count, .init 0]
    (fun b => b.created = 1 ∧ b.datumActiveThreads = 1 ∧ b.latestEmptyReadyForFull = false ∧
      b.recordSerial = 0 ∧ b.arrived = [] ∧ (b.threads 0).phase = .resting ∧
      (b.threads 0).serial = 0 ∧ (b.threads 0).work.newJob = false) (by decide +kernel)
  obtain ⟨hcreated, hactive, hnot, hrecord, harrived, hphase, hserial, hnew⟩ :=
    of_decide_eq_true htest
  have hpassed : PassedOver b 0 := by
    refine ⟨by omega, by simp [hphase], by simp [harrived],
      .inr ⟨?_, hnew, by simp [hphase]⟩⟩
    rw [hrecord, hserial]
  refine ⟨b, hreached, hactive, (never_opened hreached hnot (by omega) (by omega) hpassed
    (.single ⟨?_, ?_⟩ (a := .judge) rfl)).1⟩
  · intro hwrite
    cases hwrite
  · simp

end EmptyBarrier

end ChirpGateway
