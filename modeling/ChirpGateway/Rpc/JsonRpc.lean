import ChirpGateway.Rpc.Json

/-!
# JSON-RPC calls to the node

`json_rpc_call_full` and `bitcoind_json_rpc_call_http` of
`datum_jsonrpc.c:142-275`. What libcurl and the cookie file do in one call is
the input of the model; the functions below are what the code makes of it.
-/

namespace ChirpGateway

/-- What `curl_easy_perform` leaves behind. `CURLOPT_FAILONERROR` is always
    set, so a status of 400 and above never comes with a zero return code. -/
structure HttpReply where
  /-- the `CURLcode`, zero when the transfer succeeded -/
  rc : Nat
  /-- `CURLINFO_RESPONSE_CODE`, zero when no response was received -/
  httpCode : Int
  /-- what `JSON_LOADS` makes of the body, `none` when it does not decode -/
  body : Option Json
  failOnError : 400 ≤ httpCode → rc ≠ 0

/-- `json_rpc_call_full`. An extra header (long polling) turns the check for a
    result off. -/
def jsonRpcCallFull (extraHeader : Bool) (reply : HttpReply) : Option Json :=
  if reply.rc ≠ 0 then
    none
  else
    match reply.body with
    | none => none
    | some val =>
      if extraHeader then
        some val
      else
        let resVal := val.objectGet "result"
        let errVal := val.objectGet "error"
        -- a present but null result is a usable reply, a missing one is not
        if resVal.isNone || errVal.any (fun err => !err.isNull) then none else some val

/-- The node replied without an error and with this result. -/
structure HttpReply.HasResult (reply : HttpReply) (result : Json) : Prop where
  received : reply.rc = 0
  decoded : ∃ val, reply.body = some val ∧ val.objectGet "result" = some result ∧
    ∀ err, val.objectGet "error" = some err → err = .null

theorem HttpReply.hasResult_unique {reply : HttpReply} {first second : Json}
    (hfirst : reply.HasResult first) (hsecond : reply.HasResult second) : first = second := by
  obtain ⟨-, val, hval, hres, -⟩ := hfirst
  obtain ⟨-, val', hval', hres', -⟩ := hsecond
  rw [hval] at hval'
  cases hval'
  rw [hres] at hres'
  exact Option.some.inj hres'

/-- The call hands a value back exactly when there is a result to read in it. -/
theorem jsonRpcCallFull_eq_some_iff {reply : HttpReply} {val : Json} :
    jsonRpcCallFull false reply = some val ↔
      reply.body = some val ∧ ∃ result, val.objectGet "result" = some result ∧
        reply.HasResult result := by
  constructor
  · intro hcall
    simp only [jsonRpcCallFull] at hcall
    split at hcall
    · cases hcall
    · next hrc =>
      split at hcall
      · cases hcall
      · next body hbody =>
        simp only [Bool.false_eq_true, if_false] at hcall
        split at hcall
        · cases hcall
        · next hcheck =>
          cases hcall
          simp only [Bool.or_eq_true, not_or, Bool.not_eq_true, Option.isNone_eq_false_iff,
            Option.isSome_iff_exists] at hcheck
          obtain ⟨⟨result, hresult⟩, herr⟩ := hcheck
          refine ⟨hbody, result, hresult, not_not.mp hrc, val, hbody, hresult, ?_⟩
          intro err hget
          simpa [hget] using herr
  · rintro ⟨hbody, result, hresult, hrc, val', hbody', -, herr⟩
    rw [hbody] at hbody'
    cases hbody'
    have hnull : (val.objectGet "error").any (fun err => !err.isNull) = false := by
      cases hget : val.objectGet "error" with
      | none => rfl
      | some err => simp [herr err hget, Json.isNull]
    simp [jsonRpcCallFull, hrc, hbody, hresult, hnull]

theorem jsonRpcCallFull_isSome_iff {reply : HttpReply} :
    (jsonRpcCallFull false reply).isSome ↔ ∃ result, reply.HasResult result := by
  rw [Option.isSome_iff_exists]
  constructor
  · rintro ⟨val, hcall⟩
    obtain ⟨-, result, -, hresult⟩ := jsonRpcCallFull_eq_some_iff.mp hcall
    exact ⟨result, hresult⟩
  · rintro ⟨result, hrc, val, hbody, hget, herr⟩
    exact ⟨val, jsonRpcCallFull_eq_some_iff.mpr
      ⟨hbody, result, hget, hrc, val, hbody, hget, herr⟩⟩

/-- The credentials of `global_config_t` that decide how a call is retried. -/
structure RpcConfig where
  bitcoindRpcuser : String

/-- Everything the outside answers during one call: the first reply, whether
    `update_rpc_cookie` could read the cookie file again, and the reply to the
    call made with the new cookie. -/
structure RpcExchange where
  first : HttpReply
  cookieReloaded : Bool
  second : HttpReply

/-- `bitcoind_json_rpc_call_http`: the value, and what is stored in
    `http_resp_code_out`. -/
def bitcoindJsonRpcCallHttp (cfg : RpcConfig) (exchange : RpcExchange) : Option Json × Int :=
  match jsonRpcCallFull false exchange.first with
  | some j => (some j, exchange.first.httpCode)
  | none =>
    if cfg.bitcoindRpcuser ≠ "" then
      (none, exchange.first.httpCode)
    else if exchange.first.httpCode ≠ 401 then
      (none, exchange.first.httpCode)
    else if !exchange.cookieReloaded then
      (none, exchange.first.httpCode)
    else
      (jsonRpcCallFull false exchange.second, exchange.second.httpCode)

/-- `bitcoind_json_rpc_call`. -/
def bitcoindJsonRpcCall (cfg : RpcConfig) (exchange : RpcExchange) : Option Json :=
  (bitcoindJsonRpcCallHttp cfg exchange).1

/-- The reply a call ends with: the second one only after a 401 on a cookie
    login whose cookie could be read again. -/
def RpcExchange.finalReply (cfg : RpcConfig) (exchange : RpcExchange) : HttpReply :=
  if cfg.bitcoindRpcuser = "" ∧ exchange.first.httpCode = 401 ∧ exchange.cookieReloaded then
    exchange.second
  else
    exchange.first

/-- The cookie retry changes which reply is read, not how it is read. -/
theorem bitcoindJsonRpcCallHttp_eq (cfg : RpcConfig) (exchange : RpcExchange) :
    bitcoindJsonRpcCallHttp cfg exchange =
      (jsonRpcCallFull false (exchange.finalReply cfg), (exchange.finalReply cfg).httpCode) := by
  unfold bitcoindJsonRpcCallHttp RpcExchange.finalReply
  cases hfirst : jsonRpcCallFull false exchange.first with
  | some j =>
    -- a usable first reply has status below 400, so no retry was due
    have hcode : exchange.first.httpCode ≠ 401 := by
      intro hcode
      have hrc := exchange.first.failOnError (by omega)
      simp [jsonRpcCallFull, hrc] at hfirst
    simp [hcode, hfirst]
  | none =>
    by_cases huser : cfg.bitcoindRpcuser = ""
    · by_cases hcode : exchange.first.httpCode = 401
      · cases hcookie : exchange.cookieReloaded <;> simp [huser, hcode, hfirst]
      · simp [huser, hcode, hfirst]
    · simp [huser, hfirst]

end ChirpGateway
