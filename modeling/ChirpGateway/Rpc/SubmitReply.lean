import ChirpGateway.Rpc.JsonRpc

/-!
# Reading the answer to `submitblock`

A found block is submitted twice: by the stratum thread at the end of
`assembleBlockAndSubmit` (`datum_stratum.c:2645-2662`) and by the redundant
thread in `datum_submitblock_doit` (`datum_submitblock.c:84-127`). Both end in
the calls of `JsonRpc`; this module is how each of them reads the outcome.
-/

namespace ChirpGateway

/-- The tail of `assembleBlockAndSubmit`: its return value, from what
    `bitcoind_json_rpc_call` handed back. -/
def assembleBlockAndSubmitRet (r : Option Json) : Int :=
  -- "oddly, this means success here"
  if r.isNone then 1 else 0

/-- Whether `client_mining_submit` calls `datum_blocktemplates_notifynew` after
    a call with this outcome (`datum_stratum.c:1391-1395`). -/
def blockAnnounced (cfg : RpcConfig) (exchange : RpcExchange) : Bool :=
  assembleBlockAndSubmitRet (bitcoindJsonRpcCall cfg exchange) ≠ 0

/-! ## The redundant submission -/

/-- Where one `datum_submitblock_doit` sends to: our node (`url` is `NULL`) or
    an entry of `extra_block_submissions_urls`. -/
inductive SubmitTarget where
  | ownNode
  | extraNode
  deriving DecidableEq, Repr

/-- `DATUM_SUBMITBLOCK_MAX_ATTEMPTS`. -/
def submitblockMaxAttempts : Nat := 40

/-- `DATUM_SUBMITBLOCK_BACKOFF_MS`. -/
def submitblockBackoffMs : Nat := 100

/-- `DATUM_SUBMITBLOCK_BACKOFF_MAX_MS`. -/
def submitblockBackoffMaxMs : Nat := 2000

/-- One attempt of the loop: extra nodes are called without credentials, so
    without the cookie retry. -/
def submitAttempt (cfg : RpcConfig) (target : SubmitTarget) (exchange : RpcExchange) :
    Option Json × Int :=
  match target with
  | .ownNode => bitcoindJsonRpcCallHttp cfg exchange
  | .extraNode => (jsonRpcCallFull false exchange.first, exchange.first.httpCode)

/-- The locals of `datum_submitblock_doit` when its loop is left. `calls` is
    the number of calls made; `attempt` is one more when the loop ran out. -/
structure SubmitLoop where
  r : Option Json
  httpCode : Int
  attempt : Nat
  calls : Nat
  backoffMs : Nat

/-- The attempt loop, with `outcomes k` the exchange of the `k`-th call. -/
def submitLoop (cfg : RpcConfig) (target : SubmitTarget) (outcomes : Nat → RpcExchange) :
    (remaining : Nat) → SubmitLoop → SubmitLoop
  | 0, locals => locals
  | remaining + 1, locals =>
    let (r, httpCode) := submitAttempt cfg target (outcomes locals.attempt)
    if r.isSome || httpCode = 200 then
      { locals with r, httpCode, calls := locals.attempt }
    else
      submitLoop cfg target outcomes remaining
        { r, httpCode, attempt := locals.attempt + 1, calls := locals.attempt,
          backoffMs :=
            if locals.backoffMs < submitblockBackoffMaxMs then locals.backoffMs * 2
            else locals.backoffMs }

/-- What the log says at the end of `datum_submitblock_doit`. -/
inductive SubmitReport where
  | noValidResponse (httpCode : Int)
  | submitted (afterRetries : Bool)
  | rejected (reason : Option Json)

/-- `datum_submitblock_doit` up to its report, with the locals it ends with.
    What follows, `preciousblock`, does not depend on the answer. -/
def datumSubmitblockDoit (cfg : RpcConfig) (target : SubmitTarget)
    (outcomes : Nat → RpcExchange) : SubmitLoop × SubmitReport :=
  let locals := submitLoop cfg target outcomes submitblockMaxAttempts
    { r := none, httpCode := 0, attempt := 1, calls := 0, backoffMs := submitblockBackoffMs }
  match locals.r with
  | none => (locals, .noValidResponse locals.httpCode)
  | some r =>
    match r.objectGet "result" with
    | some .null => (locals, .submitted (decide (locals.attempt > 1)))
    | resVal => (locals, .rejected resVal)

/-! ## What the answer means -/

/-- The reply the outcome of one call is read from. -/
def submitReply (cfg : RpcConfig) : SubmitTarget → RpcExchange → HttpReply
  | .ownNode, exchange => exchange.finalReply cfg
  | .extraNode, exchange => exchange.first

/-- The node took the block: it replied without an error and with a null
    result. -/
def NodeAccepted (cfg : RpcConfig) (target : SubmitTarget) (exchange : RpcExchange) : Prop :=
  (submitReply cfg target exchange).HasResult .null

/-- The node turned the block down: it replied without an error and with a
    result that says why. -/
def NodeRejected (cfg : RpcConfig) (target : SubmitTarget) (exchange : RpcExchange) : Prop :=
  ∃ reason, reason ≠ .null ∧ (submitReply cfg target exchange).HasResult reason

theorem submitAttempt_eq (cfg : RpcConfig) (target : SubmitTarget) (exchange : RpcExchange) :
    submitAttempt cfg target exchange =
      (jsonRpcCallFull false (submitReply cfg target exchange),
        (submitReply cfg target exchange).httpCode) := by
  cases target with
  | ownNode => exact bitcoindJsonRpcCallHttp_eq cfg exchange
  | extraNode => rfl

/-- The loop keeps the value and the status of the last call it made, and it
    makes at least one. -/
theorem submitLoop_last (cfg : RpcConfig) (target : SubmitTarget)
    (outcomes : Nat → RpcExchange) (remaining : Nat) (locals : SubmitLoop)
    (hpos : 0 < remaining) :
    let final := submitLoop cfg target outcomes remaining locals
    (final.r, final.httpCode) = submitAttempt cfg target (outcomes final.calls) := by
  induction remaining generalizing locals with
  | zero => omega
  | succ remaining ih =>
    simp only [submitLoop]
    split
    · rfl
    · cases remaining with
      | zero => rfl
      | succ remaining => exact ih _ (by omega)

/-- `datum_submitblock_doit` claims success exactly when the last call it made
    was answered with a null result, and reports a rejection exactly when it
    was answered with another one. -/
theorem datumSubmitblockDoit_submitted_iff (cfg : RpcConfig) (target : SubmitTarget)
    (outcomes : Nat → RpcExchange) :
    let run := datumSubmitblockDoit cfg target outcomes
    (∃ afterRetries, run.2 = .submitted afterRetries) ↔
      NodeAccepted cfg target (outcomes run.1.calls) := by
  have hlast := submitLoop_last cfg target outcomes submitblockMaxAttempts
    { r := none, httpCode := 0, attempt := 1, calls := 0, backoffMs := submitblockBackoffMs }
    (by decide)
  simp only [datumSubmitblockDoit]
  generalize submitLoop cfg target outcomes submitblockMaxAttempts _ = locals at hlast
  simp only [submitAttempt_eq, Prod.mk.injEq] at hlast
  obtain ⟨hr, -⟩ := hlast
  cases hlocals : locals.r with
  | none =>
    rw [hlocals] at hr
    have hnone : ¬ ∃ result,
        (submitReply cfg target (outcomes locals.calls)).HasResult result := by
      rw [← jsonRpcCallFull_isSome_iff, ← hr]
      simp
    simp only [NodeAccepted, reduceCtorEq, exists_false, false_iff]
    exact fun haccepted => hnone ⟨_, haccepted⟩
  | some r =>
    rw [hlocals] at hr
    obtain ⟨-, result, hget, hresult⟩ := jsonRpcCallFull_eq_some_iff.mp hr.symm
    have haccepted : NodeAccepted cfg target (outcomes locals.calls) ↔ result = .null := by
      constructor
      · exact fun hnull => HttpReply.hasResult_unique hresult hnull
      · rintro rfl
        exact hresult
    cases result <;> simp [hget, haccepted]

/-- The stratum thread takes exactly the calls without a usable reply for a
    success. -/
theorem assembleBlockAndSubmitRet_eq_one_iff (cfg : RpcConfig) (exchange : RpcExchange) :
    assembleBlockAndSubmitRet (bitcoindJsonRpcCall cfg exchange) = 1 ↔
      ¬ ∃ result, (submitReply cfg .ownNode exchange).HasResult result := by
  rw [← jsonRpcCallFull_isSome_iff, bitcoindJsonRpcCall, bitcoindJsonRpcCallHttp_eq]
  simp only [assembleBlockAndSubmitRet, submitReply]
  cases jsonRpcCallFull false (exchange.finalReply cfg) <;> simp

theorem blockAnnounced_iff (cfg : RpcConfig) (exchange : RpcExchange) :
    blockAnnounced cfg exchange = true ↔
      assembleBlockAndSubmitRet (bitcoindJsonRpcCall cfg exchange) = 1 := by
  simp only [blockAnnounced, assembleBlockAndSubmitRet]
  split <;> simp

/-- Both submit paths read this outcome as what it is: the return value, the
    announcement that hangs on it, and the report of every redundant submission
    whose last call had this outcome. -/
structure ReadSameWay (cfg : RpcConfig) (exchange : RpcExchange) : Prop where
  returned : assembleBlockAndSubmitRet (bitcoindJsonRpcCall cfg exchange) = 1 ↔
    NodeAccepted cfg .ownNode exchange
  announced : blockAnnounced cfg exchange = true ↔ NodeAccepted cfg .ownNode exchange
  reported : ∀ outcomes : Nat → RpcExchange,
    outcomes (datumSubmitblockDoit cfg .ownNode outcomes).1.calls = exchange →
      ((∃ afterRetries,
          (datumSubmitblockDoit cfg .ownNode outcomes).2 = .submitted afterRetries) ↔
        NodeAccepted cfg .ownNode exchange)

/-- The two paths agree exactly on a rejection: an accepted block is read as
    rejected by the stratum thread, and a lost one as accepted. -/
theorem readSameWay_iff_rejected (cfg : RpcConfig) (exchange : RpcExchange) :
    ReadSameWay cfg exchange ↔ NodeRejected cfg .ownNode exchange := by
  have hreturned := assembleBlockAndSubmitRet_eq_one_iff cfg exchange
  constructor
  · intro hsame
    have hnot : ¬ NodeAccepted cfg .ownNode exchange := by
      intro haccepted
      exact hreturned.mp (hsame.returned.mpr haccepted) ⟨_, haccepted⟩
    obtain ⟨reason, hreason⟩ := not_not.mp (fun hnone =>
      hnot (hsame.returned.mp (hreturned.mpr hnone)))
    refine ⟨reason, ?_, hreason⟩
    rintro rfl
    exact hnot hreason
  · rintro ⟨reason, hne, hreason⟩
    have hnot : ¬ NodeAccepted cfg .ownNode exchange :=
      fun haccepted => hne (HttpReply.hasResult_unique hreason haccepted)
    have hret : (assembleBlockAndSubmitRet (bitcoindJsonRpcCall cfg exchange) = 1) ↔
        NodeAccepted cfg .ownNode exchange :=
      iff_of_false (fun hone => hreturned.mp hone ⟨_, hreason⟩) hnot
    refine ⟨hret, (blockAnnounced_iff cfg exchange).trans hret, ?_⟩
    rintro outcomes rfl
    exact datumSubmitblockDoit_submitted_iff cfg .ownNode outcomes

/-- A refused connection: no response at all. -/
def connectionRefused : RpcExchange where
  first := { rc := 7, httpCode := 0, body := none, failOnError := by decide }
  cookieReloaded := false
  second := { rc := 7, httpCode := 0, body := none, failOnError := by decide }

/-- The stratum thread announces a block whose submission never reached the
    node. -/
theorem connectionRefused_announced :
    blockAnnounced ⟨"rpc"⟩ connectionRefused = true ∧
      ¬ ReadSameWay ⟨"rpc"⟩ connectionRefused := by
  refine ⟨rfl, fun hsame => ?_⟩
  exact absurd (hsame.announced.mp rfl).received (by decide)

end ChirpGateway
