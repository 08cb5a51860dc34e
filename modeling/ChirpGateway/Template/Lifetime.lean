import ChirpGateway.Lib.Tables
import ChirpGateway.Lib.Transition
import ChirpGateway.Stratum.ShareRun

/-!
# How long a template lives

The ring of 32 template records, which every attempt to parse a reply advances and
clears (`datum_blocktemplates.c:251-266`), the ring of 256 jobs, which point into it,
and the thread that fills both (`datum_blocktemplates.c:929-1101`,
`datum_stratum.c:2320-2440`). Times are milliseconds.
-/

namespace ChirpGateway

open Bytes Transition

/-- The settings of the thread's waits, as `datum_conf.c:668-672` admits them. -/
structure CycleConfig extends StaleConfig where
  miningBlake2bTemplateCarousel : Bool
  miningTemplateFastRecycleMs : Nat
  fastRecycle_bound : miningTemplateFastRecycleMs = 0 ∨ 100 ≤ miningTemplateFastRecycleMs

/-- What of a job depends on its template: the record it points to, what the record
    held when the job was made, and the branches computed from that. -/
structure TemplateJob where
  blockTemplate : Fin 32
  created : BlockTemplate
  merkleBranches : List Hash32
  tsms : Nat
  isStalePrevblock : Bool

/-- `template_data` and `stratum_job_list`. A record is `none` from the moment it is
    cleared until a reply is accepted into it. -/
structure TemplateRings where
  records : Fin 32 → Option BlockTemplate
  nextTemplateIndex : Fin 32
  jobs : Fin 256 → Option TemplateJob
  stratumJobNext : Fin 256

namespace TemplateRings

variable (sha256 : List UInt8 → Hash32) (r : TemplateRings)

/-- `get_next_template_ptr`. -/
def clearNext : TemplateRings :=
  { r with
    records := Function.update r.records r.nextTemplateIndex none
    nextTemplateIndex := r.nextTemplateIndex + 1 }

/-- The record once it is written. -/
def fill (slot : Fin 32) (tmpl : BlockTemplate) : TemplateRings :=
  { r with records := Function.update r.records slot (some tmpl) }

/-- What `stratum_calculate_merkle_branches` computes from a template. -/
def branchesOf (tmpl : BlockTemplate) : List Hash32 :=
  Merkle.branches (hashPair sha256) (tmpl.txns.map TemplateTxn.txidBin)

/-- `is_stale_prevblock = true`. -/
def markStale (job : TemplateJob) : TemplateJob := { job with isStalePrevblock := true }

/-- `update_stratum_job` on the template in a record. -/
def updateStratumJob (slot : Fin 32) (newBlock : Bool) (now : Nat) : Option TemplateRings :=
  (r.records slot).map fun tmpl =>
    let others := if newBlock then fun i => (r.jobs i).map markStale else r.jobs
    { r with
      jobs := Function.update others r.stratumJobNext (some
        { blockTemplate := slot
          created := tmpl
          merkleBranches := branchesOf sha256 tmpl
          tsms := now
          isStalePrevblock := false })
      stratumJobNext := r.stratumJobNext + 1 }

end TemplateRings

/-! ## Making a job -/

section Rings

variable {sha256 : List UInt8 → Hash32} {r r' : TemplateRings} {slot : Fin 32} {newBlock : Bool}
  {now : Nat}

/-- What `update_stratum_job` does: one job more, on the record as it is, and the
    others as they were or stale. -/
theorem TemplateRings.updateStratumJob_eq_some
    (h : r.updateStratumJob sha256 slot newBlock now = some r') :
    ∃ tmpl, r.records slot = some tmpl ∧ r'.records = r.records ∧
      ∀ i job, r'.jobs i = some job →
        job =
          { blockTemplate := slot
            created := tmpl
            merkleBranches := branchesOf sha256 tmpl
            tsms := now
            isStalePrevblock := false } ∨
        ∃ old, r.jobs i = some old ∧ (job = old ∨ job = markStale old) := by
  obtain ⟨tmpl, htmpl, rfl⟩ := Option.map_eq_some_iff.mp h
  refine ⟨tmpl, htmpl, rfl, ?_⟩
  intro i job hjob
  dsimp only at hjob
  by_cases hi : i = r.stratumJobNext
  · subst hi
    rw [Function.update_self] at hjob
    exact .inl (Option.some.inj hjob).symm
  · rw [Function.update_of_ne hi] at hjob
    cases newBlock with
    | false => exact .inr ⟨job, hjob, .inl rfl⟩
    | true =>
      obtain ⟨old, hold, rfl⟩ := Option.map_eq_some_iff.mp hjob
      exact .inr ⟨old, hold, .inr rfl⟩

end Rings

/-- What the thread waits for. -/
inductive Rest where
  /-- a second after a call that failed -/
  | retry
  /-- the next cycle or a notification -/
  | listen
  /-- a quarter of a second before the node is asked again for an announced block -/
  | recheck

/-- Where the thread is in its cycle. -/
inductive CyclePhase where
  | fetching
  | parsing (slot : Fin 32)
  | parsed (slot : Fin 32) (previousblockhash : List UInt8)
  | emptied (slot : Fin 32)
  | resting
  | waiting (wakeAt : Nat) (rest : Rest)

/-- The template thread, and the clock a stratum thread has read. -/
structure TemplateThread where
  rings : TemplateRings
  now : Nat
  loopTsms : Nat
  p1 : List UInt8
  lastBlockChange : Nat
  wasNotified : Bool
  wnc : Nat
  newNotify : Bool
  notifyOthercause : Bool
  phase : CyclePhase

inductive TemplateEvent where
  /-- time goes by -/
  | tick (ms : Nat)
  /-- a stratum thread reads the clock -/
  | loop
  /-- a block is announced -/
  | notify
  | othercause
  | wake
  /-- the call fails -/
  | noReply
  /-- the reply has no result -/
  | noResult
  /-- `get_next_template_ptr` -/
  | clear
  /-- the parser returns `NULL` -/
  | refuse
  | accept (tmpl : BlockTemplate) (previousblockhash : List UInt8)
  /-- the job of a new block, or of an urgent update -/
  | emptyPlus
  /-- the full job behind it -/
  | fullPriority
  | fullNormal
  /-- the announced block is not there yet, or was known -/
  | noUpdate (known : Bool)
  /-- the hack for testnets: the template is changed and made a job -/
  | fastForward (curtime : UInt64)
  /-- the end of a cycle; `thin` is what the rotation says of its set -/
  | sleep (thin : Bool)

/-- The record the thread has taken and not made a job of. -/
def CyclePhase.taken : CyclePhase → Option (Fin 32)
  | .parsing slot => some slot
  | .parsed slot _ => some slot
  | _ => none

namespace TemplateThread

variable (sha256 : List UInt8 → Hash32) (cfg : CycleConfig) (s : TemplateThread)

/-- The wait after a cycle that listens for notifications. -/
def waitMs (thin : Bool) : Nat :=
  if cfg.miningBlake2bTemplateCarousel ∧ cfg.miningTemplateFastRecycleMs > 0 ∧
      s.now - s.lastBlockChange < 30000 ∧ thin then
    cfg.miningTemplateFastRecycleMs
  else
    cfg.bitcoindWorkUpdateSeconds * 1000

/-- A wait ends. -/
def wake (wakeAt : Nat) : Rest → Option TemplateThread
  | .retry => if wakeAt ≤ s.now then some { s with phase := .fetching } else none
  | .listen =>
    if s.newNotify then
      some { s with newNotify := false, wasNotified := true, wnc := 0, phase := .fetching }
    else if wakeAt ≤ s.now then some { s with phase := .fetching }
    else none
  | .recheck =>
    if wakeAt ≤ s.now then
      if s.wnc + 1 > 16 then some { s with wnc := 0, wasNotified := false, phase := .fetching }
      else some { s with wnc := s.wnc + 1, phase := .fetching }
    else
      none

/-- A job on the template in a record, with the thread's next phase. -/
def makeJob (slot : Fin 32) (newBlock : Bool) (phase : CyclePhase) : Option TemplateThread :=
  (s.rings.updateStratumJob sha256 slot newBlock s.now).map fun rings => { s with rings, phase }

/-- The branch for a new block or an urgent update. -/
def emptyPlus (slot : Fin 32) (previousblockhash : List UInt8) : Option TemplateThread :=
  if previousblockhash ≠ s.p1 then
    makeJob sha256
      { s with
        notifyOthercause := false
        lastBlockChange := s.now
        p1 := previousblockhash
        wasNotified := false } slot true (.emptied slot)
  else if s.notifyOthercause then
    makeJob sha256 { s with notifyOthercause := false } slot true (.emptied slot)
  else
    none

/-- The branches for a block the thread knows. -/
def knownBlock (slot : Fin 32) : TemplateEvent → Option TemplateThread
  | .fullNormal => if s.wasNotified then none else makeJob sha256 s slot false .resting
  | .noUpdate known =>
    if s.wasNotified then
      some { s with
        wasNotified := !(known || s.now < s.lastBlockChange + 2500)
        wnc := if known then 0 else s.wnc
        phase := .resting }
    else
      none
  | .fastForward curtime =>
    if s.wasNotified then
      (s.rings.records slot).bind fun tmpl =>
        makeJob sha256
          { s with
            rings := s.rings.fill slot { tmpl with bitsUint := 0x1d00ffff, curtime }
            wasNotified := false } slot true .resting
    else
      none
  | _ => none

/-- The thread, one event at a time. -/
def step (event : TemplateEvent) : Option TemplateThread :=
  match event, s.phase with
  | .tick ms, _ => some { s with now := s.now + ms }
  | .loop, _ => some { s with loopTsms := s.now }
  | .notify, _ => some { s with newNotify := true }
  | .othercause, _ => some { s with notifyOthercause := true }
  | .wake, .waiting wakeAt rest => s.wake wakeAt rest
  | .noReply, .fetching => some { s with phase := .waiting (s.now + 1000) .retry }
  | .noResult, .fetching => some { s with phase := .resting }
  | .clear, .fetching =>
    some { s with rings := s.rings.clearNext, phase := .parsing s.rings.nextTemplateIndex }
  | .refuse, .parsing _ => some { s with phase := .resting }
  | .accept tmpl previousblockhash, .parsing slot =>
    some { s with rings := s.rings.fill slot tmpl, phase := .parsed slot previousblockhash }
  | .emptyPlus, .parsed slot previousblockhash => s.emptyPlus sha256 slot previousblockhash
  | .fullPriority, .emptied slot => s.makeJob sha256 slot false .resting
  | .sleep thin, .resting =>
    if s.wasNotified ∧ ¬ s.newNotify then
      some { s with phase := .waiting (s.now + 250) .recheck }
    else
      some { s with phase := .waiting (s.now + s.waitMs cfg thin) .listen }
  | event, .parsed slot previousblockhash =>
    if previousblockhash = s.p1 ∧ ¬ s.notifyOthercause then s.knownBlock sha256 slot event
    else none
  | _, _ => none

/-- The thread as a transition system. -/
def system : System TemplateThread TemplateEvent where
  step s event := s.step sha256 cfg event

/-- The gateway starts at some time, with empty rings. -/
def Starts : Prop :=
  ∃ now, s =
    { rings :=
        { records := fun _ => none
          nextTemplateIndex := 0
          jobs := fun _ => none
          stratumJobNext := 0 }
      now
      loopTsms := 0
      p1 := []
      lastBlockChange := 0
      wasNotified := false
      wnc := 0
      newNotify := false
      notifyOthercause := false
      phase := .fetching }

/-- `client_mining_submit` accepts shares for a job that is in its slot. -/
def StillAccepts (job : TemplateJob) : Prop :=
  job.isStalePrevblock = false ∧
    s.loopTsms ≤ job.tsms +
      (cfg.stratumV1ShareStaleSeconds + cfg.bitcoindWorkUpdateSeconds) * 1000

/-- The record of every job that shares are accepted for is as the job found it,
    and holds the transactions its branches commit to. -/
structure Intact : Prop where
  record : ∀ i job, s.rings.jobs i = some job → s.StillAccepts cfg job →
    s.rings.records job.blockTemplate = some job.created
  body : ∀ i job, s.rings.jobs i = some job → s.StillAccepts cfg job →
    ∀ tmpl, s.rings.records job.blockTemplate = some tmpl →
      TemplateRings.branchesOf sha256 tmpl = job.merkleBranches

/-- A record is only cleared when no shares are accepted for the jobs made from
    it. -/
def ClearsUnused (event : TemplateEvent) : Prop :=
  match event, s.phase with
  | .clear, .fetching => ∀ i job, s.rings.jobs i = some job →
      job.blockTemplate = s.rings.nextTemplateIndex → ¬ s.StillAccepts cfg job
  | _, _ => True

/-! ## What a step can do -/

section Steps

variable {sha256 cfg s} {s' : TemplateThread} {event : TemplateEvent}

/-- Steps that touch neither ring. -/
structure Quiet (s s' : TemplateThread) : Prop where
  rings : s'.rings = s.rings
  now : s.now ≤ s'.now
  loopTsms : s'.loopTsms = s.loopTsms ∨ s'.loopTsms = s.now
  taken : s'.phase.taken = s.phase.taken ∨ s'.phase.taken = none

/-- A job is made on a record: the one just parsed, which may have been changed
    before, or the one of an emptied job. -/
structure MakesJob (sha256 : List UInt8 → Hash32) (s s' : TemplateThread) (slot : Fin 32)
    (rings : TemplateRings) : Prop where
  made : ∃ newBlock, rings.updateStratumJob sha256 slot newBlock s.now = some s'.rings
  before : rings = s.rings ∨ s.phase.taken = some slot ∧
    ∃ tmpl, rings = s.rings.fill slot tmpl
  now : s'.now = s.now
  loopTsms : s'.loopTsms = s.loopTsms
  taken : s'.phase.taken = none

theorem quiet_wake {wakeAt : Nat} {rest : Rest} (h : s.wake wakeAt rest = some s') :
    Quiet s s' := by
  cases rest <;> simp only [wake] at h <;> split_ifs at h <;> cases h <;>
    exact ⟨rfl, le_rfl, .inl rfl, .inr rfl⟩

/-- `makeJob` on the state the branch has prepared, which has the clocks of `s`. -/
theorem makesJob_makeJob {t : TemplateThread} {slot : Fin 32} {newBlock : Bool}
    {phase : CyclePhase} (h : t.makeJob sha256 slot newBlock phase = some s')
    (hphase : phase.taken = none) (hnow : t.now = s.now) (hloop : t.loopTsms = s.loopTsms)
    (hbefore : t.rings = s.rings ∨
      s.phase.taken = some slot ∧ ∃ tmpl, t.rings = s.rings.fill slot tmpl) :
    ∃ rings, MakesJob sha256 s s' slot rings := by
  obtain ⟨rings, hrings, rfl⟩ := Option.map_eq_some_iff.mp h
  exact ⟨t.rings, ⟨newBlock, hnow ▸ hrings⟩, hbefore, hnow, hloop, hphase⟩

theorem makesJob_emptyPlus {slot : Fin 32} {previousblockhash : List UInt8}
    (h : s.emptyPlus sha256 slot previousblockhash = some s') :
    ∃ rings, MakesJob sha256 s s' slot rings := by
  unfold emptyPlus at h
  split_ifs at h
  · exact makesJob_makeJob h rfl rfl rfl (.inl rfl)
  · exact makesJob_makeJob h rfl rfl rfl (.inl rfl)

theorem knownBlock_cases {slot : Fin 32} (hphase : s.phase.taken = some slot)
    (h : s.knownBlock sha256 slot event = some s') :
    Quiet s s' ∨ ∃ rings, MakesJob sha256 s s' slot rings := by
  cases event <;> unfold knownBlock at h <;> try cases h
  case fullNormal =>
    split_ifs at h
    exact .inr (makesJob_makeJob h rfl rfl rfl (.inl rfl))
  case noUpdate known =>
    split_ifs at h
    cases h
    exact .inl ⟨rfl, le_rfl, .inl rfl, .inr rfl⟩
  case fastForward curtime =>
    split_ifs at h
    obtain ⟨tmpl, -, hmake⟩ := Option.bind_eq_some_iff.mp h
    exact .inr (makesJob_makeJob hmake rfl rfl rfl (.inr ⟨hphase, _, rfl⟩))

/-- Everything a step can do to the rings: nothing, clear the next record, fill the
    record just cleared, or make a job. -/
theorem step_cases (h : s.step sha256 cfg event = some s') :
    Quiet s s' ∨
    (event = .clear ∧ s.phase = .fetching ∧
      s' = { s with rings := s.rings.clearNext, phase := .parsing s.rings.nextTemplateIndex }) ∨
    (∃ tmpl previousblockhash slot, s.phase.taken = some slot ∧
      s' = { s with rings := s.rings.fill slot tmpl, phase := .parsed slot previousblockhash }) ∨
    ∃ slot rings, MakesJob sha256 s s' slot rings := by
  unfold step at h
  split at h
  case h_1 => cases h; exact .inl ⟨rfl, Nat.le_add_right _ _, .inl rfl, .inl rfl⟩
  case h_2 => cases h; exact .inl ⟨rfl, le_rfl, .inr rfl, .inl rfl⟩
  case h_3 => cases h; exact .inl ⟨rfl, le_rfl, .inl rfl, .inl rfl⟩
  case h_4 => cases h; exact .inl ⟨rfl, le_rfl, .inl rfl, .inl rfl⟩
  case h_5 => exact .inl (quiet_wake h)
  case h_6 => cases h; exact .inl ⟨rfl, le_rfl, .inl rfl, .inr rfl⟩
  case h_7 => cases h; exact .inl ⟨rfl, le_rfl, .inl rfl, .inr rfl⟩
  case h_8 hphase => cases h; exact .inr (.inl ⟨rfl, hphase, rfl⟩)
  case h_9 => cases h; exact .inl ⟨rfl, le_rfl, .inl rfl, .inr rfl⟩
  case h_10 tmpl previousblockhash slot hphase =>
    cases h
    exact .inr (.inr (.inl ⟨tmpl, previousblockhash, slot, hphase ▸ rfl, rfl⟩))
  case h_11 => exact .inr (.inr (.inr ⟨_, makesJob_emptyPlus h⟩))
  case h_12 => exact .inr (.inr (.inr ⟨_, makesJob_makeJob h rfl rfl rfl (.inl rfl)⟩))
  case h_13 =>
    split_ifs at h <;> cases h <;> exact .inl ⟨rfl, le_rfl, .inl rfl, .inr rfl⟩
  case h_14 _ _ _ _ _ _ _ hphase =>
    split_ifs at h
    rcases knownBlock_cases (hphase ▸ rfl) h with hquiet | ⟨rings, hmakes⟩
    · exact .inl hquiet
    · exact .inr (.inr (.inr ⟨_, rings, hmakes⟩))
  case h_15 => cases h

/-! ## What a run keeps -/

variable (sha256 cfg s) in
/-- What a run keeps that clears only unused records. -/
structure Kept : Prop where
  clock : s.loopTsms ≤ s.now
  record : ∀ i job, s.rings.jobs i = some job → s.StillAccepts cfg job →
    s.rings.records job.blockTemplate = some job.created
  branches : ∀ i job, s.rings.jobs i = some job →
    job.merkleBranches = TemplateRings.branchesOf sha256 job.created
  /-- the record just taken is the one of no job in use -/
  unused : ∀ slot, s.phase.taken = some slot → ∀ i job, s.rings.jobs i = some job →
    job.blockTemplate = slot → ¬ s.StillAccepts cfg job

theorem kept_of_starts (h : s.Starts) : Kept sha256 cfg s := by
  obtain ⟨now, rfl⟩ := h
  refine ⟨Nat.zero_le now, ?_, ?_, ?_⟩ <;> intros <;> contradiction

theorem Kept.intact (h : Kept sha256 cfg s) : s.Intact sha256 cfg := by
  refine ⟨h.record, ?_⟩
  intro i job hjob haccepts tmpl htmpl
  rw [h.record i job hjob haccepts] at htmpl
  rw [h.branches i job hjob, Option.some.inj htmpl]

/-- A job that is no longer accepted stays so while the clock goes on. -/
theorem StillAccepts.of_later {job : TemplateJob} (hloop : s.loopTsms ≤ s'.loopTsms)
    (h : s'.StillAccepts cfg job) : s.StillAccepts cfg job :=
  ⟨h.1, hloop.trans h.2⟩

theorem StillAccepts.of_markStale {old : TemplateJob}
    (h : s.StillAccepts cfg (TemplateRings.markStale old)) : False := by
  cases h.1

theorem Kept.quiet (h : Kept sha256 cfg s) (hquiet : Quiet s s') : Kept sha256 cfg s' := by
  have hlater : s.loopTsms ≤ s'.loopTsms := by
    rcases hquiet.loopTsms with hloop | hloop
    · exact hloop.ge
    · exact hloop ▸ h.clock
  refine ⟨?_, ?_, hquiet.rings ▸ h.branches, ?_⟩
  · rcases hquiet.loopTsms with hloop | hloop
    · exact hloop ▸ h.clock.trans hquiet.now
    · exact hloop ▸ hquiet.now
  · intro i job hjob haccepts
    rw [hquiet.rings] at hjob ⊢
    exact h.record i job hjob (haccepts.of_later hlater)
  · intro slot hslot i job hjob hsame haccepts
    rw [hquiet.rings] at hjob
    rcases hquiet.taken with htaken | htaken
    · exact h.unused slot (htaken ▸ hslot) i job hjob hsame (haccepts.of_later hlater)
    · rw [htaken] at hslot
      cases hslot

/-- Writing a record that no job in use points to. -/
theorem Kept.record_update (h : Kept sha256 cfg s) {slot : Fin 32} {value : Option BlockTemplate}
    (hunused : ∀ i job, s.rings.jobs i = some job → job.blockTemplate = slot →
      ¬ s.StillAccepts cfg job) :
    ∀ i job, s.rings.jobs i = some job → s.StillAccepts cfg job →
      Function.update s.rings.records slot value job.blockTemplate = some job.created := by
  intro i job hjob haccepts
  have hother : job.blockTemplate ≠ slot := by
    intro hsame
    exact hunused i job hjob hsame haccepts
  rw [Function.update_of_ne hother]
  exact h.record i job hjob haccepts

theorem Kept.clear (h : Kept sha256 cfg s) (hphase : s.phase = .fetching)
    (hcond : s.ClearsUnused cfg .clear) :
    Kept sha256 cfg
      { s with rings := s.rings.clearNext, phase := .parsing s.rings.nextTemplateIndex } := by
  have hunused : ∀ i job, s.rings.jobs i = some job →
      job.blockTemplate = s.rings.nextTemplateIndex → ¬ s.StillAccepts cfg job := by
    unfold ClearsUnused at hcond
    rw [hphase] at hcond
    exact hcond
  refine ⟨h.clock, h.record_update hunused, h.branches, ?_⟩
  intro slot hslot
  obtain rfl := Option.some.inj hslot
  exact hunused

theorem Kept.accept (h : Kept sha256 cfg s) {slot : Fin 32} (htaken : s.phase.taken = some slot)
    (tmpl : BlockTemplate) (previousblockhash : List UInt8) :
    Kept sha256 cfg
      { s with rings := s.rings.fill slot tmpl, phase := .parsed slot previousblockhash } := by
  refine ⟨h.clock, h.record_update (h.unused slot htaken), h.branches, ?_⟩
  intro slot' hslot
  obtain rfl := Option.some.inj hslot
  exact h.unused slot htaken

theorem Kept.makesJob (h : Kept sha256 cfg s) {slot : Fin 32} {rings : TemplateRings}
    (hmakes : MakesJob sha256 s s' slot rings) : Kept sha256 cfg s' := by
  obtain ⟨⟨newBlock, hmade⟩, hbefore, hnow, hloop, htaken⟩ := hmakes
  obtain ⟨tmpl, htmpl, hrecords, hjobs⟩ := TemplateRings.updateStratumJob_eq_some hmade
  have hold : rings.jobs = s.rings.jobs ∧ ∀ i job, s.rings.jobs i = some job →
      s.StillAccepts cfg job → rings.records job.blockTemplate = some job.created := by
    rcases hbefore with rfl | ⟨hslot, changed, rfl⟩
    · exact ⟨rfl, h.record⟩
    · exact ⟨rfl, h.record_update (h.unused slot hslot)⟩
  refine ⟨by rw [hnow, hloop]; exact h.clock, ?_, ?_, ?_⟩
  · intro i job hjob haccepts
    rw [hrecords]
    rcases hjobs i job hjob with rfl | ⟨old, hprev, rfl | rfl⟩
    · exact htmpl
    · exact hold.2 i job (hold.1 ▸ hprev) (haccepts.of_later hloop.ge)
    · exact haccepts.of_markStale.elim
  · intro i job hjob
    rcases hjobs i job hjob with rfl | ⟨old, hprev, rfl | rfl⟩
    · rfl
    · exact h.branches i job (hold.1 ▸ hprev)
    · exact h.branches i old (hold.1 ▸ hprev)
  · intro slot' hslot'
    rw [htaken] at hslot'
    cases hslot'

/-- The step lemma: a step that clears no record in use keeps the invariant. -/
theorem Kept.step (h : Kept sha256 cfg s) (hcond : s.ClearsUnused cfg event)
    (hstep : s.step sha256 cfg event = some s') : Kept sha256 cfg s' := by
  rcases step_cases hstep with hquiet | ⟨rfl, hphase, rfl⟩ |
      ⟨tmpl, prev, slot, htaken, rfl⟩ |
    ⟨slot, rings, hmakes⟩
  · exact h.quiet hquiet
  · exact h.clear hphase hcond
  · exact h.accept htaken tmpl prev
  · exact h.makesJob hmakes

/-- The run lemma. -/
theorem kept_of_reachedBy (h : (system sha256 cfg).ReachedBy (ClearsUnused cfg) Starts s) :
    Kept sha256 cfg s :=
  h.invariant (fun _ hs => kept_of_starts hs) fun _ _ _ hkept hcond hnext => hkept.step hcond hnext

/-- A step that clears a record in use leaves a job without its template. -/
theorem not_intact_of_clears (hcond : ¬ s.ClearsUnused cfg event)
    (hstep : s.step sha256 cfg event = some s') : ¬ s'.Intact sha256 cfg := by
  intro hintact
  refine hcond ?_
  unfold ClearsUnused
  split
  · next hphase =>
    intro i job hjob hsame haccepts
    have hs' : s' =
        { s with rings := s.rings.clearNext, phase := .parsing s.rings.nextTemplateIndex } := by
      unfold step at hstep
      rw [hphase] at hstep
      exact (Option.some.inj hstep).symm
    subst hs'
    have hrecord : Function.update s.rings.records s.rings.nextTemplateIndex none
        job.blockTemplate = some job.created := hintact.record i job hjob haccepts
    rw [hsame, Function.update_self] at hrecord
    cases hrecord
  · trivial

end Steps

/-- In every run that clears a record only when no shares are accepted for its jobs,
    the templates of the accepted jobs stay as they were, and the step that clears
    another record takes one of them away. -/
theorem intact_of_clearsUnused :
    (∀ s, (system sha256 cfg).ReachedBy (ClearsUnused cfg) Starts s → s.Intact sha256 cfg) ∧
    ∀ s event s', (system sha256 cfg).Reachable Starts s → s.step sha256 cfg event = some s' →
      ¬ s.ClearsUnused cfg event → ¬ s'.Intact sha256 cfg := by
  constructor
  · intro s hrun
    exact (kept_of_reachedBy hrun).intact
  · intro s event s' _ hstep hcond
    exact not_intact_of_clears hcond hstep

end TemplateThread

/-! ## A thin set -/

/-- The default settings with the carousel on and the shortest fast cycle. -/
def shortestCycleConfig : CycleConfig where
  toStaleConfig := defaultStaleConfig
  miningBlake2bTemplateCarousel := true
  miningTemplateFastRecycleMs := 100
  fastRecycle_bound := .inr (by decide)

/-- The gateway at its start. -/
def emptyTemplateThread : TemplateThread where
  rings :=
    { records := fun _ => none
      nextTemplateIndex := 0
      jobs := fun _ => none
      stratumJobNext := 0 }
  now := 1700000000000
  loopTsms := 0
  p1 := []
  lastBlockChange := 0
  wasNotified := false
  wnc := 0
  newNotify := false
  notifyOthercause := false
  phase := .fetching

theorem emptyTemplateThread_starts : emptyTemplateThread.Starts := ⟨1700000000000, rfl⟩

/-- A new block, with the carousel's set still thin. -/
def newBlockEvents : List TemplateEvent :=
  [.clear, .accept quietTemplate (List.replicate 64 7), .emptyPlus, .fullPriority, .sleep true,
    .tick 100, .wake]

/-- A fast cycle. -/
def fastCycleEvents : List TemplateEvent :=
  [.clear, .accept quietTemplate (List.replicate 64 7), .fullNormal, .sleep true, .tick 100, .wake]

/-- A cycle of the usual length. -/
def slowCycleEvents : List TemplateEvent :=
  [.clear, .accept quietTemplate (List.replicate 64 7), .fullNormal, .sleep false, .tick 40000,
    .wake, .loop]

instance (cfg : CycleConfig) (s : TemplateThread) (job : TemplateJob) :
    Decidable (s.StillAccepts cfg job) :=
  inferInstanceAs (Decidable (_ ∧ _))

/-- No job that is accepted points to the record that is cleared. -/
def TemplateThread.clearsLate (cfg : CycleConfig) (s : TemplateThread) : TemplateEvent → Bool
  | .clear => (List.finRange 256).all fun i => (s.rings.jobs i).all fun job =>
      decide (job.blockTemplate = s.rings.nextTemplateIndex → ¬ s.StillAccepts cfg job)
  | _ => true

theorem TemplateThread.clearsUnused_of_clearsLate {cfg : CycleConfig} {s : TemplateThread}
    {event : TemplateEvent} (h : s.clearsLate cfg event = true) : s.ClearsUnused cfg event := by
  unfold ClearsUnused
  split
  · intro i job hjob hsame
    have hall := List.all_eq_true.mp h i (List.mem_finRange i)
    rw [hjob, Option.all_some, decide_eq_true_eq] at hall
    exact hall hsame
  · trivial

/-- A whole ring later shares for the job of the new block are no longer accepted, and its record
    is cleared and filled again. -/
theorem exists_intact : ∃ s,
    (TemplateThread.system zeroHash shortestCycleConfig).ReachedBy
      (TemplateThread.ClearsUnused shortestCycleConfig) TemplateThread.Starts s ∧
    (s.rings.jobs 0).map TemplateJob.blockTemplate = some 0 ∧
    (s.rings.jobs 33).map TemplateJob.blockTemplate = some 0 ∧
    s.Intact zeroHash shortestCycleConfig := by
  obtain ⟨s, hrun, htest⟩ := System.exists_reachedBy_of_replay
    (TemplateThread.system zeroHash shortestCycleConfig) emptyTemplateThread_starts
    (TemplateThread.clearsLate shortestCycleConfig)
    (newBlockEvents ++ (List.replicate 32 slowCycleEvents).flatten)
    (fun s => decide ((s.rings.jobs 0).map TemplateJob.blockTemplate = some 0 ∧
      (s.rings.jobs 33).map TemplateJob.blockTemplate = some 0))
    (fun _ _ => TemplateThread.clearsUnused_of_clearsLate) (by decide +kernel)
  obtain ⟨hfirst, hlast⟩ := of_decide_eq_true htest
  exact ⟨s, hrun, hfirst, hlast,
    (TemplateThread.intact_of_clearsUnused zeroHash shortestCycleConfig).1 s hrun⟩

/-- The job of the new block loses its template 3.2 seconds later. -/
theorem exists_reachable_not_intact : ∃ s,
    (TemplateThread.system zeroHash shortestCycleConfig).Reachable TemplateThread.Starts s ∧
      ¬ s.Intact zeroHash shortestCycleConfig := by
  obtain ⟨s, hrun, htest⟩ := System.exists_reachedBy_of_replay
    (TemplateThread.system zeroHash shortestCycleConfig) emptyTemplateThread_starts
    (fun _ _ => true)
    (newBlockEvents ++ (List.replicate 31 fastCycleEvents).flatten ++ [.loop, .clear])
    (fun s => (s.rings.jobs 0).any fun job =>
      !job.isStalePrevblock && decide (s.loopTsms ≤ job.tsms + 160000) &&
        (s.rings.records job.blockTemplate).isNone)
    (fun _ _ _ => trivial) (by decide +kernel)
  refine ⟨s, hrun, ?_⟩
  intro hintact
  obtain ⟨job, hjob, htest⟩ := (Option.any_eq_true _ _).mp htest
  simp only [Bool.and_eq_true, Bool.not_eq_true', decide_eq_true_eq] at htest
  obtain ⟨⟨hstale, hage⟩, hnone⟩ := htest
  have hrecord := hintact.record 0 job hjob ⟨hstale, hage⟩
  rw [hrecord] at hnone
  cases hnone

end ChirpGateway
