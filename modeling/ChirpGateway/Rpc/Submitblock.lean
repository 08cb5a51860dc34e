import ChirpGateway.Lib.Buffer
import ChirpGateway.Lib.Transition
import ChirpGateway.Rpc.SubmitReply

/-!
# Handing a found block to the submit thread

Each stratum thread composes its `submitblock` request in a buffer of its own
(`sdata->submitblock_req`, `datum_stratum.c:2526-2609`) and hands a pointer to
it to the one submit thread, which sends the request from there, with retries
and to the extra nodes, before it clears the pointer
(`datum_submitblock.c:84-198`). This module is that exchange as a transition
system: the threads, the buffers, and the submit thread, which holds the mutex
while it serves a hand-over.
-/

namespace ChirpGateway

/-- The text of a request as `assembleBlockAndSubmit` composes it, without its
    terminator. -/
structure RequestText where
  bytes : List UInt8
  noNul : 0 ∉ bytes

@[ext] theorem RequestText.ext {text other : RequestText} (h : text.bytes = other.bytes) :
    text = other := by
  cases text
  cases other
  congr

instance : DecidableEq RequestText := fun text other =>
  decidable_of_iff (text.bytes = other.bytes) ⟨RequestText.ext, congrArg RequestText.bytes⟩

/-- The text with the zero byte that ends it in memory. -/
def RequestText.stored (text : RequestText) : List UInt8 :=
  text.bytes ++ [0]

/-- Where a stratum thread is in `assembleBlockAndSubmit`. -/
inductive AssembleState where
  | idle
  /-- `written` bytes of the request are in the buffer -/
  | composing (hash : List UInt8) (text : RequestText) (written : Nat)
  /-- `bitcoind_json_rpc_call`, after `datum_submitblock_trigger` -/
  | calling
  /-- `datum_submitblock_waitfree`, only with memory of its own call -/
  | freeing
  deriving DecidableEq

/-- A transfer under way: `json_rpc_call_full` took the length once, the bytes
    are read as `upload_data_cb` asks for them. -/
structure Upload where
  len : Nat
  sent : List UInt8
  deriving DecidableEq

/-- The submit thread inside its `submitblock_ptr != NULL` branch. `node` counts
    our node and then the extra nodes. -/
structure Serving where
  node : Nat
  attempt : Nat
  /-- the second call of this attempt, made with a reloaded cookie -/
  reauthenticated : Bool
  upload : Option Upload
  deriving DecidableEq

/-- The submit thread and everything it shares with the stratum threads. -/
structure SubmitState (τ : Type) where
  threads : τ → AssembleState
  buffers : τ → List UInt8
  submitBlockTriggered : Bool
  submitblockPtr : Option τ
  submitblockHash : List UInt8
  /-- inside the loop body, with the mutex held -/
  serving : Option Serving
  /-- every request composed so far, with the hash of its block -/
  built : List (List UInt8 × RequestText)
  /-- every request sent in full by `datum_submitblock_doit`, with the hash it
      was sent for -/
  sent : List (List UInt8 × List UInt8)

/-- How a call of the submit thread ends. -/
inductive CallEnd where
  /-- a value, or HTTP 200 without a usable one: the attempt loop is left -/
  | settled
  /-- a 401 on a cookie login: the same attempt sends the request again -/
  | reauthenticated
  /-- anything else: back off and try again -/
  | unanswered
  deriving DecidableEq, Repr

/-- What can happen next. -/
inductive SubmitEvent (τ : Type) where
  | foundBlock (thread : τ) (hash : List UInt8) (text : RequestText)
  | compose (thread : τ) (count : Nat)
  | trigger (thread : τ)
  | ownCallReturned (thread : τ)
  | waitedFree (thread : τ)
  | wake
  | attempt
  | upload (count : Nat)
  | callEnded (how : CallEnd)

/-- What is fixed while the gateway runs. -/
structure SubmitConfig (τ : Type) where
  /-- `sdata->submitblock_req` is there -/
  hasBuffer : τ → Bool
  extraBlockSubmissionsCount : Nat

variable {τ : Type}

namespace SubmitState

/-- Nobody is served and no hand-over is waiting for the submit thread. -/
def handoverFree (s : SubmitState τ) : Bool :=
  s.serving.isNone && !s.submitBlockTriggered && s.submitblockPtr.isNone

/-- Moves one thread on. -/
def setThread [DecidableEq τ] (s : SubmitState τ) (thread : τ) (next : AssembleState) :
    SubmitState τ :=
  { s with threads := Function.update s.threads thread next }

/-- The end of the loop body: the pointer and the event flag are reset and the
    mutex is released. -/
def release (s : SubmitState τ) : SubmitState τ :=
  { s with submitblockPtr := none, submitBlockTriggered := false, serving := none }

/-- The transfer of the attempt under way is now this one. -/
def setUpload (s : SubmitState τ) (upload : Upload) : SubmitState τ :=
  { s with serving := s.serving.map fun now => { now with upload := some upload } }

/-- Only a request whose announced length was sent reached the node. -/
def logUpload (s : SubmitState τ) (upload : Upload) : SubmitState τ :=
  if upload.sent.length = upload.len then
    { s with sent := (s.submitblockHash, upload.sent) :: s.sent }
  else
    s

/-- The submit thread turns to the next node, or is done. -/
def nextNode (cfg : SubmitConfig τ) (s : SubmitState τ) (node : Nat) : SubmitState τ :=
  if node < cfg.extraBlockSubmissionsCount then
    { s with
      serving := some { node := node + 1, attempt := 1, reauthenticated := false, upload := none } }
  else
    s.release

end SubmitState

/-- `datum_submitblock_trigger` refuses a hash that does not fit. -/
def submitblockHashSize : Nat := 256

/-- One step of a stratum thread, of the submit thread or of one transfer. -/
def submitStep [DecidableEq τ] (cfg : SubmitConfig τ) (s : SubmitState τ) :
    SubmitEvent τ → Option (SubmitState τ)
  | .foundBlock thread hash text =>
    match s.threads thread with
    | .idle =>
      some { s.setThread thread (.composing hash text 0) with built := (hash, text) :: s.built }
    | _ => none
  | .compose thread count =>
    match s.threads thread with
    | .composing hash text written =>
      let piece := (text.stored.drop written).take count
      if piece.isEmpty then
        none
      else
        some { s.setThread thread (.composing hash text (written + piece.length)) with
          buffers := Function.update s.buffers thread
            (Buffer.writeAt (s.buffers thread) written piece) }
    | _ => none
  | .trigger thread =>
    match s.threads thread with
    | .composing hash text written =>
      if written < text.stored.length then
        none
      else if submitblockHashSize ≤ hash.length then
        some (s.setThread thread .calling)
      else if s.handoverFree then
        some { s.setThread thread .calling with
          submitblockPtr := some thread, submitblockHash := hash, submitBlockTriggered := true }
      else
        none
    | _ => none
  | .ownCallReturned thread =>
    match s.threads thread with
    | .calling => some (s.setThread thread (if cfg.hasBuffer thread then .idle else .freeing))
    | _ => none
  | .waitedFree thread =>
    match s.threads thread with
    | .freeing => if s.handoverFree then some (s.setThread thread .idle) else none
    | _ => none
  | .wake =>
    if s.serving.isNone && s.submitBlockTriggered then
      if s.submitblockPtr.isSome then
        some { s with
          serving := some { node := 0, attempt := 1, reauthenticated := false, upload := none } }
      else
        some s.release
    else
      none
  | .attempt =>
    match s.serving, s.submitblockPtr with
    | some { upload := none, .. }, some ptr =>
      let len := (Buffer.cString (s.buffers ptr)).length
      some (s.setUpload { len, sent := [] })
    | _, _ => none
  | .upload count =>
    match s.serving, s.submitblockPtr with
    | some { upload := some { len, sent }, .. }, some ptr =>
      let read := ((s.buffers ptr).drop sent.length).take (min count (len - sent.length))
      some (s.setUpload { len, sent := sent ++ read })
    | _, _ => none
  | .callEnded how =>
    match s.serving with
    | some { node, attempt, reauthenticated, upload := some upload } =>
      let logged := s.logUpload upload
      match how with
      | .settled => some (logged.nextNode cfg node)
      | .reauthenticated =>
        if node = 0 && !reauthenticated then
          some { logged with
            serving := some { node, attempt, reauthenticated := true, upload := none } }
        else
          none
      | .unanswered =>
        if attempt < submitblockMaxAttempts then
          some { logged with
            serving :=
              some { node, attempt := attempt + 1, reauthenticated := false, upload := none } }
        else
          some (logged.nextNode cfg node)
    | _ => none

/-- The gateway at start: no block found yet, whatever the buffers contain. -/
def SubmitStart (s : SubmitState τ) : Prop :=
  (∀ thread, s.threads thread = .idle) ∧ s.submitBlockTriggered = false ∧
    s.submitblockPtr = none ∧ s.serving = none ∧ s.built = [] ∧ s.sent = []

/-- The exchange of found blocks as a transition system. -/
def submitSystem [DecidableEq τ] (cfg : SubmitConfig τ) :
    Transition.System (SubmitState τ) (SubmitEvent τ) where
  step := submitStep cfg

/-! ## What is sent is what was built -/

/-- Every request sent for a block is one that was built for it. -/
def SentAsBuilt (s : SubmitState τ) : Prop :=
  ∀ hash bytes, (hash, bytes) ∈ s.sent → ∃ text, (hash, text) ∈ s.built ∧
    text.bytes = bytes

/-- A thread does not store into its buffer while the submit thread has the
    pointer to it. -/
def LeavesHandedBuffer (cfg : SubmitConfig τ) (s : SubmitState τ) : SubmitEvent τ → Prop
  | .compose thread _ => cfg.hasBuffer thread = true → s.submitblockPtr ≠ some thread
  | _ => True

/-- The handed-over buffer still has the text for the hash next to it, and the
    transfer under way has read only from that text. -/
structure HandedOver (s : SubmitState τ) (thread : τ) (text : RequestText) : Prop where
  built : (s.submitblockHash, text) ∈ s.built
  held : Buffer.Holds (s.buffers thread) text.stored
  upload : ∀ now upload, s.serving = some now → now.upload = some upload →
    upload.len = text.bytes.length ∧ upload.sent = text.bytes.take upload.sent.length

/-- What holds between the steps of a run that leaves handed-over buffers
    alone. -/
structure HandoverInv (cfg : SubmitConfig τ) (s : SubmitState τ) : Prop where
  composing : ∀ thread hash text written, s.threads thread = .composing hash text written →
    (hash, text) ∈ s.built ∧ written ≤ text.stored.length ∧
      Buffer.Holds (s.buffers thread) (text.stored.take written)
  handed : ∀ thread, s.submitblockPtr = some thread → ∃ text, HandedOver s thread text
  -- memory of one call is freed only after the submit thread is done with it
  allocated : ∀ thread, s.submitblockPtr = some thread → cfg.hasBuffer thread = false →
    s.threads thread = .calling ∨ s.threads thread = .freeing
  served : s.serving.isSome → s.submitblockPtr.isSome
  sent : SentAsBuilt s

/-- A step that leaves the handed-over buffer and the transfer alone keeps the
    hand-over. -/
theorem HandedOver.frame {s s' : SubmitState τ} {thread : τ} {text : RequestText}
    (h : HandedOver s thread text) (hhash : s'.submitblockHash = s.submitblockHash)
    (hbuilt : s.built ⊆ s'.built) (hbuffer : s'.buffers thread = s.buffers thread)
    (hserving : s'.serving = s.serving) : HandedOver s' thread text where
  built := by
    rw [hhash]
    exact hbuilt h.built
  held := by
    rw [hbuffer]
    exact h.held
  upload := by
    rw [hserving]
    exact h.upload

theorem SentAsBuilt.mono {s s' : SubmitState τ} (h : SentAsBuilt s)
    (hbuilt : s.built ⊆ s'.built) (hsent : s'.sent = s.sent) : SentAsBuilt s' := by
  intro hash bytes hmem
  rw [hsent] at hmem
  obtain ⟨text, hin, hbytes⟩ := h hash bytes hmem
  exact ⟨text, hbuilt hin, hbytes⟩

variable [DecidableEq τ]

namespace SubmitState

@[simp] theorem setThread_self (s : SubmitState τ) (thread : τ) (next : AssembleState) :
    (s.setThread thread next).threads thread = next := by
  simp [setThread]

theorem setThread_of_ne (s : SubmitState τ) {thread other : τ} (next : AssembleState)
    (hne : other ≠ thread) : (s.setThread thread next).threads other = s.threads other := by
  simp [setThread, hne]

omit [DecidableEq τ] in
theorem handoverFree_iff (s : SubmitState τ) :
    s.handoverFree = true ↔
      s.serving = none ∧ s.submitBlockTriggered = false ∧ s.submitblockPtr = none := by
  simp [handoverFree, and_assoc]

end SubmitState

section StratumThread

variable {cfg : SubmitConfig τ} {s s' : SubmitState τ} {thread : τ}

theorem handoverInv_foundBlock {hash : List UInt8} {text : RequestText} (h : HandoverInv cfg s)
    (hstep : submitStep cfg s (.foundBlock thread hash text) = some s') :
    HandoverInv cfg s' := by
  simp only [submitStep] at hstep
  split at hstep
  · next hidle =>
    cases hstep
    refine ⟨?_, ?_, ?_, h.served, h.sent.mono (List.subset_cons_self _ _) rfl⟩
    · intro other hash' text' written hother
      by_cases heq : other = thread
      · subst heq
        rw [SubmitState.setThread_self] at hother
        cases hother
        exact ⟨List.mem_cons_self, Nat.zero_le _, Buffer.Holds.nil _⟩
      · rw [SubmitState.setThread_of_ne _ _ heq] at hother
        obtain ⟨hbuilt, hrest⟩ := h.composing other hash' text' written hother
        exact ⟨List.mem_cons_of_mem _ hbuilt, hrest⟩
    · intro other hptr
      obtain ⟨text', hhanded⟩ := h.handed other hptr
      exact ⟨text', hhanded.frame rfl (List.subset_cons_self _ _) rfl rfl⟩
    · intro other hptr hbuffer
      have hother := h.allocated other hptr hbuffer
      have hne : other ≠ thread := by
        rintro rfl
        simp [hidle] at hother
      rwa [SubmitState.setThread_of_ne _ _ hne]
  · cases hstep

theorem handoverInv_compose {count : Nat} (h : HandoverInv cfg s)
    (hleaves : LeavesHandedBuffer cfg s (.compose thread count))
    (hstep : submitStep cfg s (.compose thread count) = some s') : HandoverInv cfg s' := by
  simp only [submitStep] at hstep
  split at hstep
  · next hash text written hcomposing =>
    split at hstep
    · cases hstep
    · cases hstep
      obtain ⟨hbuilt, hwritten, hheld⟩ := h.composing thread hash text written hcomposing
      -- memory allocated for this call is not the buffer that is handed over
      have hptr : s.submitblockPtr ≠ some thread := by
        intro hptr
        cases hbuffer : cfg.hasBuffer thread with
        | true => exact hleaves hbuffer hptr
        | false => simpa [hcomposing] using h.allocated thread hptr hbuffer
      refine ⟨?_, ?_, ?_, h.served, h.sent⟩
      · intro other hash' text' written' hother
        by_cases heq : other = thread
        · subst heq
          simp only [SubmitState.setThread_self] at hother
          cases hother
          refine ⟨hbuilt, ?_, ?_⟩
          · simp only [List.length_take, List.length_drop]
            omega
          · simp only [Function.update_self]
            exact hheld.writeNext hwritten count
        · simp only [SubmitState.setThread_of_ne _ _ heq] at hother
          simp only [Function.update_of_ne heq]
          exact h.composing other hash' text' written' hother
      · intro other hother
        obtain ⟨text', hhanded⟩ := h.handed other hother
        have hne : other ≠ thread := by
          rintro rfl
          exact hptr hother
        exact ⟨text', hhanded.frame rfl (List.Subset.refl _) (Function.update_of_ne hne _ _)
          rfl⟩
      · intro other hother hbuffer
        have hne : other ≠ thread := by
          rintro rfl
          exact hptr hother
        simp only [SubmitState.setThread_of_ne _ _ hne]
        exact h.allocated other hother hbuffer
  · cases hstep

/-- Moving a thread to a place where it composes nothing. -/
theorem handoverInv_setThread {next : AssembleState} (h : HandoverInv cfg s)
    (hnext : ∀ hash text written, next ≠ .composing hash text written)
    (hfree : s.submitblockPtr = some thread → cfg.hasBuffer thread = false →
      next = .calling ∨ next = .freeing) : HandoverInv cfg (s.setThread thread next) := by
  refine ⟨?_, ?_, ?_, h.served, h.sent⟩
  · intro other hash text written hother
    by_cases heq : other = thread
    · subst heq
      rw [SubmitState.setThread_self] at hother
      exact absurd hother (hnext hash text written)
    · rw [SubmitState.setThread_of_ne _ _ heq] at hother
      exact h.composing other hash text written hother
  · intro other hother
    obtain ⟨text, hhanded⟩ := h.handed other hother
    exact ⟨text, hhanded.frame rfl (List.Subset.refl _) rfl rfl⟩
  · intro other hother hbuffer
    by_cases heq : other = thread
    · subst heq
      rw [SubmitState.setThread_self]
      exact hfree hother hbuffer
    · rw [SubmitState.setThread_of_ne _ _ heq]
      exact h.allocated other hother hbuffer

theorem handoverInv_trigger (h : HandoverInv cfg s)
    (hstep : submitStep cfg s (.trigger thread) = some s') : HandoverInv cfg s' := by
  simp only [submitStep] at hstep
  split at hstep
  · next hash text written hcomposing =>
    obtain ⟨hbuilt, hwritten, hheld⟩ := h.composing thread hash text written hcomposing
    have hmoved : HandoverInv cfg (s.setThread thread .calling) :=
      handoverInv_setThread h (fun _ _ _ => by simp) (fun _ _ => Or.inl rfl)
    split at hstep
    · cases hstep
    · next hdone =>
      split at hstep
      · cases hstep
        exact hmoved
      · split at hstep
        · next hfree =>
          cases hstep
          obtain ⟨hserving, -, -⟩ := s.handoverFree_iff.mp hfree
          refine ⟨hmoved.composing, ?_, ?_, ?_, h.sent⟩
          · rintro other hother
            cases hother
            rw [List.take_of_length_le (by omega)] at hheld
            refine ⟨text, hbuilt, hheld, ?_⟩
            intro now upload hnow
            simp [SubmitState.setThread, hserving] at hnow
          · rintro other hother -
            cases hother
            exact Or.inl (SubmitState.setThread_self _ _ _)
          · exact fun _ => rfl
        · cases hstep
  · cases hstep

theorem handoverInv_ownCallReturned (h : HandoverInv cfg s)
    (hstep : submitStep cfg s (.ownCallReturned thread) = some s') : HandoverInv cfg s' := by
  simp only [submitStep] at hstep
  split at hstep
  · cases hstep
    refine handoverInv_setThread h ?_ ?_
    · intro hash text written
      split <;> simp
    · intro _ hbuffer
      simp [hbuffer]
  · cases hstep

theorem handoverInv_waitedFree (h : HandoverInv cfg s)
    (hstep : submitStep cfg s (.waitedFree thread) = some s') : HandoverInv cfg s' := by
  simp only [submitStep] at hstep
  split at hstep
  · split at hstep
    · next hfree =>
      cases hstep
      obtain ⟨-, -, hptr⟩ := s.handoverFree_iff.mp hfree
      refine handoverInv_setThread h (fun _ _ _ => by simp) ?_
      intro hsome
      rw [hptr] at hsome
      cases hsome
    · cases hstep
  · cases hstep

end StratumThread

section SubmitThread

variable {cfg : SubmitConfig τ} {s s' : SubmitState τ}

omit [DecidableEq τ] in
theorem handoverInv_setServing {next : Serving} (h : HandoverInv cfg s)
    (hptr : s.submitblockPtr.isSome)
    (hupload : ∀ thread text upload, HandedOver s thread text →
      s.submitblockPtr = some thread →
      next.upload = some upload →
      upload.len = text.bytes.length ∧ upload.sent = text.bytes.take upload.sent.length) :
    HandoverInv cfg { s with serving := some next } := by
  refine ⟨h.composing, ?_, h.allocated, fun _ => hptr, h.sent⟩
  intro thread hthread
  obtain ⟨text, hhanded⟩ := h.handed thread hthread
  refine ⟨text, hhanded.built, hhanded.held, ?_⟩
  intro now upload hnow hup
  cases hnow
  exact hupload thread text upload hhanded hthread hup

omit [DecidableEq τ] in
theorem handoverInv_release (h : HandoverInv cfg s) : HandoverInv cfg s.release := by
  refine ⟨h.composing, ?_, ?_, ?_, h.sent⟩ <;> simp [SubmitState.release]

omit [DecidableEq τ] in
theorem handoverInv_logUpload {now : Serving} {upload : Upload} (h : HandoverInv cfg s)
    (hnow : s.serving = some now) (hupload : now.upload = some upload) :
    HandoverInv cfg (s.logUpload upload) := by
  unfold SubmitState.logUpload
  split
  · next hfull =>
    refine ⟨h.composing, ?_, h.allocated, h.served, ?_⟩
    · intro thread hthread
      obtain ⟨text, hhanded⟩ := h.handed thread hthread
      exact ⟨text, hhanded.frame rfl (List.Subset.refl _) rfl rfl⟩
    · intro hash bytes hmem
      rcases List.mem_cons.mp hmem with hnew | hold
      · cases hnew
        obtain ⟨thread, hthread⟩ := Option.isSome_iff_exists.mp (h.served (by simp [hnow]))
        obtain ⟨text, hhanded⟩ := h.handed thread hthread
        obtain ⟨hlen, hsent⟩ := hhanded.upload now upload hnow hupload
        refine ⟨text, hhanded.built, ?_⟩
        rw [hsent, hfull, hlen, List.take_length]
      · exact h.sent hash bytes hold
  · exact h

omit [DecidableEq τ] in
theorem handoverInv_nextNode {node : Nat} (h : HandoverInv cfg s)
    (hptr : s.submitblockPtr.isSome) : HandoverInv cfg (s.nextNode cfg node) := by
  unfold SubmitState.nextNode
  split
  · exact handoverInv_setServing h hptr (fun _ _ _ _ _ hup => by cases hup)
  · exact handoverInv_release h

theorem handoverInv_wake (h : HandoverInv cfg s)
    (hstep : submitStep cfg s .wake = some s') : HandoverInv cfg s' := by
  simp only [submitStep] at hstep
  split at hstep
  · split at hstep
    · next hptr =>
      cases hstep
      exact handoverInv_setServing h hptr (fun _ _ _ _ _ hup => by cases hup)
    · cases hstep
      exact handoverInv_release h
  · cases hstep

theorem handoverInv_attempt (h : HandoverInv cfg s)
    (hstep : submitStep cfg s .attempt = some s') : HandoverInv cfg s' := by
  simp only [submitStep] at hstep
  split at hstep
  · next node attempt reauthenticated ptr hserving hptr =>
    cases hstep
    rw [SubmitState.setUpload, hserving]
    refine handoverInv_setServing h (by simp [hptr]) ?_
    intro thread text upload hhanded hthread hup
    cases hup
    rw [hptr] at hthread
    cases hthread
    exact ⟨by rw [hhanded.held.cString_eq text.noNul], rfl⟩
  · cases hstep

theorem handoverInv_upload {count : Nat} (h : HandoverInv cfg s)
    (hstep : submitStep cfg s (.upload count) = some s') : HandoverInv cfg s' := by
  simp only [submitStep] at hstep
  split at hstep
  · next node attempt reauthenticated len sent ptr hserving hptr =>
    cases hstep
    rw [SubmitState.setUpload, hserving]
    refine handoverInv_setServing h (by simp [hptr]) ?_
    intro thread text upload hhanded hthread hup
    cases hup
    rw [hptr] at hthread
    cases hthread
    obtain ⟨hlen, hsent⟩ := hhanded.upload _ _ hserving rfl
    simp only at hlen hsent ⊢
    refine ⟨hlen, ?_⟩
    -- what is read lies inside the announced length, so inside the text
    have hsentLen : sent.length ≤ text.bytes.length := by
      have := congrArg List.length hsent
      simp only [List.length_take] at this
      omega
    have hcount : sent.length + min count (len - sent.length) ≤ text.bytes.length := by omega
    have hread : ((s.buffers ptr).drop sent.length).take (min count (len - sent.length)) =
        (text.bytes.drop sent.length).take (min count (len - sent.length)) := by
      rw [hhanded.held.window (by simp [RequestText.stored]; omega), RequestText.stored,
        List.drop_append_of_le_length hsentLen, List.take_append_of_le_length]
      rw [List.length_drop]
      omega
    rw [hread, List.length_append, ← Buffer.take_append_piece, ← hsent]
  · cases hstep

theorem handoverInv_callEnded {how : CallEnd} (h : HandoverInv cfg s)
    (hstep : submitStep cfg s (.callEnded how) = some s') : HandoverInv cfg s' := by
  simp only [submitStep] at hstep
  split at hstep
  · next node attempt reauthenticated upload hserving =>
    have hlogged : HandoverInv cfg (s.logUpload upload) := handoverInv_logUpload h hserving rfl
    have hptr : (s.logUpload upload).submitblockPtr.isSome := by
      have := h.served (by simp [hserving])
      unfold SubmitState.logUpload
      split <;> exact this
    cases how with
    | settled =>
      cases hstep
      exact handoverInv_nextNode hlogged hptr
    | reauthenticated =>
      simp only at hstep
      split at hstep
      · cases hstep
        exact handoverInv_setServing hlogged hptr (fun _ _ _ _ _ hup => by cases hup)
      · cases hstep
    | unanswered =>
      simp only at hstep
      split at hstep
      · cases hstep
        exact handoverInv_setServing hlogged hptr (fun _ _ _ _ _ hup => by cases hup)
      · cases hstep
        exact handoverInv_nextNode hlogged hptr
  · cases hstep

end SubmitThread

/-! ## Runs -/

omit [DecidableEq τ] in
theorem handoverInv_start {cfg : SubmitConfig τ} {s : SubmitState τ} (h : SubmitStart s) :
    HandoverInv cfg s := by
  obtain ⟨hidle, -, hptr, hserving, -, hsent⟩ := h
  refine ⟨?_, ?_, ?_, ?_, ?_⟩
  · intro thread hash text written hcomposing
    rw [hidle thread] at hcomposing
    cases hcomposing
  · simp [hptr]
  · simp [hptr]
  · simp [hserving]
  · intro hash bytes hmem
    rw [hsent] at hmem
    cases hmem

theorem handoverInv_step {cfg : SubmitConfig τ} {s s' : SubmitState τ} {event : SubmitEvent τ}
    (h : HandoverInv cfg s) (hleaves : LeavesHandedBuffer cfg s event)
    (hstep : submitStep cfg s event = some s') : HandoverInv cfg s' := by
  cases event with
  | foundBlock thread hash text => exact handoverInv_foundBlock h hstep
  | compose thread count => exact handoverInv_compose h hleaves hstep
  | trigger thread => exact handoverInv_trigger h hstep
  | ownCallReturned thread => exact handoverInv_ownCallReturned h hstep
  | waitedFree thread => exact handoverInv_waitedFree h hstep
  | wake => exact handoverInv_wake h hstep
  | attempt => exact handoverInv_attempt h hstep
  | upload count => exact handoverInv_upload h hstep
  | callEnded how => exact handoverInv_callEnded h hstep

instance (cfg : SubmitConfig τ) (s : SubmitState τ) (event : SubmitEvent τ) :
    Decidable (LeavesHandedBuffer cfg s event) :=
  match event with
  | .compose thread _ =>
    inferInstanceAs (Decidable (cfg.hasBuffer thread = true → s.submitblockPtr ≠ some thread))
  | .foundBlock .. | .trigger _ | .ownCallReturned _ | .waitedFree _ | .wake | .attempt
  | .upload _ | .callEnded _ => inferInstanceAs (Decidable True)

/-- As long as no thread composes in a buffer the submit thread still has, every
    request sent for a block is the one built for it, over any interleaving of
    threads, retries and extra nodes. -/
theorem sentAsBuilt_of_leavesHandedBuffer (cfg : SubmitConfig τ) (s : SubmitState τ)
    (hrun : (submitSystem cfg).ReachedBy (LeavesHandedBuffer cfg) SubmitStart s) :
    SentAsBuilt s := by
  have hinv : HandoverInv cfg s :=
    hrun.invariant (fun _ hstart => handoverInv_start hstart)
      (fun _ _ _ h hleaves hstep => handoverInv_step h hleaves hstep)
  exact hinv.sent

/-- One thread with its buffer and one without, and no extra node. -/
def twoThreads : SubmitConfig Bool where
  hasBuffer := id
  extraBlockSubmissionsCount := 0

/-- Two threads before any block is found. -/
def noBlockYet : SubmitState Bool where
  threads _ := .idle
  buffers _ := []
  submitBlockTriggered := false
  submitblockPtr := none
  submitblockHash := []
  serving := none
  built := []
  sent := []

theorem noBlockYet_start : SubmitStart noBlockYet :=
  ⟨fun _ => rfl, rfl, rfl, rfl, rfl, rfl⟩

/-- Requests standing for two blocks of different length. -/
def firstRequest : RequestText := ⟨[0x7b, 0x31, 0x7d], by decide⟩

def secondRequest : RequestText := ⟨[0x7b, 0x32, 0x32, 0x7d], by decide⟩

/-- Both threads find a block; the first is sent on the second attempt, and the
    second waits for it. -/
def twoBlocksSent : List (SubmitEvent Bool) :=
  [.foundBlock true [1] firstRequest, .compose true 2, .foundBlock false [2] secondRequest,
    .compose true 2, .compose false 5, .trigger true, .ownCallReturned true, .wake, .attempt,
    .upload 2, .callEnded .unanswered, .attempt, .upload 2, .upload 2, .callEnded .settled,
    .trigger false, .wake, .attempt, .upload 9, .callEnded .settled, .ownCallReturned false,
    .waitedFree false]

theorem twoBlocksSent_asBuilt :
    ∃ s, (submitSystem twoThreads).ReachedBy (LeavesHandedBuffer twoThreads) SubmitStart s ∧
      s.sent = [([2], secondRequest.bytes), ([1], firstRequest.bytes)] ∧ SentAsBuilt s := by
  obtain ⟨s, hrun, htest⟩ := Transition.System.exists_reachedBy_of_replay
    (submitSystem twoThreads) noBlockYet_start
    (fun s event => decide (LeavesHandedBuffer twoThreads s event)) twoBlocksSent
    (fun s => s.sent = [([2], secondRequest.bytes), ([1], firstRequest.bytes)])
    (fun _ _ => of_decide_eq_true) (by decide)
  exact ⟨s, hrun, of_decide_eq_true htest, sentAsBuilt_of_leavesHandedBuffer twoThreads s hrun⟩

/-- The thread finds its next block while the submit thread is still retrying. -/
def rebuiltWhileRetrying : List (SubmitEvent Bool) :=
  [.foundBlock true [1] firstRequest, .compose true 4, .trigger true, .wake, .attempt,
    .callEnded .unanswered, .ownCallReturned true, .foundBlock true [2] secondRequest,
    .compose true 5, .attempt, .upload 4, .callEnded .settled]

/-- The request of the second block goes out for the first one. -/
theorem rebuiltWhileRetrying_sent :
    ∃ s, (submitSystem twoThreads).Reachable SubmitStart s ∧
      s.sent = [([1], secondRequest.bytes)] ∧ ¬ SentAsBuilt s := by
  obtain ⟨s, hrun, htest⟩ := Transition.System.exists_reachedBy_of_replay
    (submitSystem twoThreads) noBlockYet_start (fun _ _ => true) rebuiltWhileRetrying
    (fun s => s.sent = [([1], secondRequest.bytes)] &&
      s.built = [([2], secondRequest), ([1], firstRequest)])
    (fun _ _ _ => trivial) (by decide)
  simp only [Bool.and_eq_true, decide_eq_true_eq] at htest
  obtain ⟨hsent, hbuilt⟩ := htest
  refine ⟨s, hrun, hsent, fun hall => ?_⟩
  obtain ⟨text, hmem, hbytes⟩ := hall [1] secondRequest.bytes (by simp [hsent])
  rw [hbuilt] at hmem
  simp only [List.mem_cons, Prod.mk.injEq, List.not_mem_nil, or_false] at hmem
  rcases hmem with ⟨hhash, -⟩ | ⟨-, rfl⟩
  · exact absurd hhash (by decide)
  · exact absurd hbytes (by decide)

end ChirpGateway
