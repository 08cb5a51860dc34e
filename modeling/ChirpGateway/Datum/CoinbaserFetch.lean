import ChirpGateway.Chirp.Glue
import ChirpGateway.Datum.Authentic
import ChirpGateway.Lib.Transition

/-!
# Fetching a coinbaser

The coinbaser thread asks the server for the outputs of a job and waits for up to
five seconds on a condition variable that the protocol thread signals when a
response has been stored (`datum_protocol.c:269-385`,
`datum_coinbaser.c:880-1000`). Each section under the mutex is a step; time is in
milliseconds.
-/

namespace ChirpGateway

open Bytes Transition Wire

/-! ## Reading a response -/

/-- The outputs of a response, as far as the value of the job allows. `left` is how many
    of the 512 are still free. -/
def parseOutputs (coinbaseValue : UInt64) :
    (left : Nat) → (tally : UInt64) → List UInt8 → Option (List DatumTxnOutput)
  | 0, _, _ => some []
  | left + 1, tally, bytes =>
    if bytes.isEmpty then
      some []
    else if bytes.length < 9 then
      none
    else
      let outval := UInt64.ofNat (leValue (bytes.take 8))
      let slen := (bytes.getD 8 0).toNat
      let rest := bytes.drop 9
      if outval + tally > coinbaseValue then
        some []
      else if slen < 2 || 64 < slen || rest.length < slen then
        none
      else
        (parseOutputs coinbaseValue left (tally + outval) (rest.drop slen)).map fun outputs =>
          { outputScript := rest.take slen, valueSats := outval.toNat } :: outputs

/-- `datum_coinbaser_v2_parse`: the outputs a job gets, and the number of the coinbaser. -/
def coinbaserV2Parse (coinbaseValue : UInt64) (coinbaser : List UInt8) :
    Option (UInt8 × List DatumTxnOutput) :=
  if coinbaser.length < 9 then
    none
  else
    (parseOutputs coinbaseValue 512 0 (coinbaser.drop 1)).map (coinbaser.getD 0 0, ·)

/-- The outputs that a response gives a job of this value: none where it is not well formed. -/
def outputsOf (coinbaseValue : UInt64) (coinbaser : List UInt8) : List DatumTxnOutput :=
  ((coinbaserV2Parse coinbaseValue coinbaser).map Prod.snd).getD []

/-! ## The two threads -/

/-- What the server is asked: how to split a value on a previous block. The last is not
    sent: until when the response is waited for. -/
structure CoinbaserRequest where
  value : UInt64
  prevhash : Hash32
  deadline : Nat
  deriving DecidableEq

/-- A call of `datum_protocol_coinbaser_fetch`, with the number of its request. -/
inductive FetchCall where
  | idle
  /-- before the mutex is taken -/
  | sent (n : Nat) (request : CoinbaserRequest)
  /-- in `pthread_cond_timedwait` -/
  | waiting (n : Nat) (request : CoinbaserRequest)
  /-- `pthread_cond_timedwait` is to return zero -/
  | woken (n : Nat) (request : CoinbaserRequest)
  deriving DecidableEq

/-- What a call did for its job: the response it read, and the outputs. -/
structure FetchResult where
  n : Nat
  deadline : Nat
  response : Option (List UInt8)
  outputs : List DatumTxnOutput
  deriving DecidableEq

/-- A response that was stored, and when. -/
structure StoredResponse where
  n : Nat
  coinbaser : List UInt8
  time : Nat
  deriving DecidableEq

/-- The buffers, the thread that fetches, and the clock. The last three are not in the
    source: all requests, the responses stored and the calls that returned. -/
structure FetchState where
  client : DatumClient
  fetch : FetchCall
  now : Nat
  requests : List CoinbaserRequest
  stored : List StoredResponse
  returned : List FetchResult

/-- Steps of the two threads and of the clock. -/
inductive FetchEvent where
  | tick (ms : Nat)
  | fetch (value : UInt64) (prevhash : Hash32) (active : Bool)
  | startWait
  /-- the response to a request is handled -/
  | respond (n : Nat) (coinbaser : List UInt8)
  /-- `pthread_cond_timedwait` returns without a signal -/
  | spurious
  | timeout
  | resume
  deriving DecidableEq

/-- A response of the server behind its command byte. -/
def coinbaserResponse (value : UInt64) (coinbaser : List UInt8) : List UInt8 :=
  leBytes 8 value.toNat ++ leBytes 4 coinbaser.length ++ coinbaser

/-- The outputs are read from the current buffer if it is for this value. -/
def readResponse (buffers : CoinbaserBuffers) (value : UInt64) : Option (List UInt8) :=
  if buffers.isSet && buffers.value buffers.bufIdx = value then
    some (buffers.buf buffers.bufIdx)
  else
    none

namespace FetchState

/-- The call returns. -/
def finish (s : FetchState) (n : Nat) (request : CoinbaserRequest)
    (response : Option (List UInt8)) : FetchState :=
  { s with
    fetch := .idle
    returned := s.returned ++
      [{ n, deadline := request.deadline, response
         outputs := ((response.bind (coinbaserV2Parse request.value)).map Prod.snd).getD [] }] }

/-- A response is stored and the condition is signalled. -/
def store (s : FetchState) (n : Nat) (request : CoinbaserRequest) (coinbaser : List UInt8) :
    FetchState :=
  let data := coinbaserResponse request.value coinbaser
  { s with
    client := (s.client.coinbaserFetchResponse ⟨[], true, 0⟩ data.length data).1
    fetch :=
      match s.fetch with
      | .waiting n request => .woken n request
      | call => call
    stored := s.stored ++ [⟨n, coinbaser, s.now⟩] }

def step (s : FetchState) : FetchEvent → Option FetchState
  | .tick ms => some { s with now := s.now + ms }
  | .fetch value prevhash active =>
    match s.fetch with
    | .idle =>
      if value < 31250000 || !active then
        some s
      else
        let request : CoinbaserRequest := { value, prevhash, deadline := s.now + 5000 }
        some
          { s with
            fetch := .sent s.requests.length request
            requests := s.requests ++ [request] }
    | _ => none
  | .startWait =>
    match s.fetch with
    | .sent n request => some { s with fetch := .waiting n request }
    | _ => none
  | .respond n coinbaser =>
    match s.requests[n]? with
    | some request =>
      if 1 ≤ coinbaser.length ∧ coinbaser.length ≤ 32767 then
        some (s.store n request coinbaser)
      else
        none
    | none => none
  | .spurious =>
    match s.fetch with
    | .waiting n request => some { s with fetch := .woken n request }
    | _ => none
  | .timeout =>
    match s.fetch with
    | .waiting n request =>
      if request.deadline ≤ s.now then some (s.finish n request none) else none
    | _ => none
  | .resume =>
    match s.fetch with
    | .woken n request =>
      some (s.finish n request (readResponse s.client.coinbaser request.value))
    | _ => none

/-- Before the first fetch. -/
def Fresh (s : FetchState) : Prop :=
  s.fetch = .idle ∧ s.requests = [] ∧ s.stored = [] ∧ s.returned = []

/-- What a call installs is in the response to its own request, read for the value it asked
    for, and it installs such a response if any was stored in time. -/
structure Matched (s : FetchState) : Prop where
  own : ∀ result ∈ s.returned, ∀ coinbaser, result.response = some coinbaser →
    (∃ response ∈ s.stored, response.n = result.n ∧ response.coinbaser = coinbaser) ∧
      ∃ request, s.requests[result.n]? = some request ∧
        result.outputs = outputsOf request.value coinbaser
  nothing : ∀ result ∈ s.returned, result.response = none → result.outputs = []
  notMissed : ∀ result ∈ s.returned, ∀ response ∈ s.stored, response.n = result.n →
    response.time < result.deadline → result.response ≠ none

/-- A response that arrives now ends the wait for its own request and nothing else. -/
def Awaited (s : FetchState) (n : Nat) : Prop :=
  match s.fetch with
  | .idle => True
  | .sent current _ => n ≠ current
  | .waiting current _ | .woken current _ => n = current

instance (s : FetchState) (n : Nat) : Decidable (s.Awaited n) :=
  match h : s.fetch with
  | .idle => .isTrue (by rw [Awaited, h]; trivial)
  | .sent current _ => decidable_of_iff (n ≠ current) (by rw [Awaited, h])
  | .waiting current _ => decidable_of_iff (n = current) (by rw [Awaited, h])
  | .woken current _ => decidable_of_iff (n = current) (by rw [Awaited, h])

/-- Only responses end the wait, and each only the wait for its request. -/
def AnswersWait (s : FetchState) : FetchEvent → Prop
  | .respond n _ => s.Awaited n
  | .spurious => False
  | _ => True

instance (s : FetchState) (event : FetchEvent) : Decidable (s.AnswersWait event) :=
  match event with
  | .respond n _ => inferInstanceAs (Decidable (s.Awaited n))
  | .spurious => inferInstanceAs (Decidable False)
  | .tick _ => inferInstanceAs (Decidable True)
  | .fetch _ _ _ => inferInstanceAs (Decidable True)
  | .startWait => inferInstanceAs (Decidable True)
  | .timeout => inferInstanceAs (Decidable True)
  | .resume => inferInstanceAs (Decidable True)

end FetchState

def fetchSystem : System FetchState FetchEvent where
  step := FetchState.step

/-! ## What is stored -/

theorem bytesAt_append (front middle back : List UInt8) :
    bytesAt (front ++ middle ++ back) front.length middle.length = middle := by
  apply List.ext_getElem
  · rw [bytesAt, List.length_map, List.length_range]
  · intro i hi hi'
    simp only [bytesAt, List.getElem_map, List.getElem_range]
    rw [List.append_assoc, List.getD_append_right _ _ _ _ (Nat.le_add_right _ _),
      Nat.add_sub_cancel_left, List.getD_append _ _ _ _ hi', List.getD_eq_getElem _ _ hi']

/-- What the protocol thread stores is what a fetch for the value reads. -/
theorem coinbaser_response (client : DatumClient) (value : UInt64) {coinbaser : List UInt8}
    (hlow : 1 ≤ coinbaser.length) (hhigh : coinbaser.length ≤ 32767) :
    readResponse (client.coinbaserFetchResponse ⟨[], true, 0⟩
      (coinbaserResponse value coinbaser).length (coinbaserResponse value coinbaser)).1.coinbaser
        value = some coinbaser := by
  have hlength : (coinbaserResponse value coinbaser).length = 12 + coinbaser.length := by
    simp only [coinbaserResponse, List.length_append, length_leBytes]
  have hvalue : bytesAt (coinbaserResponse value coinbaser) 0 8 = leBytes 8 value.toNat := by
    have hsplit := bytesAt_append [] (leBytes 8 value.toNat)
      (leBytes 4 coinbaser.length ++ coinbaser)
    rwa [List.nil_append, length_leBytes, ← List.append_assoc] at hsplit
  have hsize : bytesAt (coinbaserResponse value coinbaser) 8 4 = leBytes 4 coinbaser.length := by
    have hsplit := bytesAt_append (leBytes 8 value.toNat) (leBytes 4 coinbaser.length) coinbaser
    rwa [length_leBytes, length_leBytes] at hsplit
  have hbytes : bytesAt (coinbaserResponse value coinbaser) 12 coinbaser.length = coinbaser := by
    have hsplit := bytesAt_append (leBytes 8 value.toNat ++ leBytes 4 coinbaser.length) coinbaser []
    rwa [List.append_nil, List.length_append, length_leBytes, length_leBytes] at hsplit
  have hsizeValue : leValue (leBytes 4 coinbaser.length) = coinbaser.length :=
    leValue_leBytes_of_lt (by omega)
  have hvalueValue : leValue (leBytes 8 value.toNat) = value.toNat :=
    leValue_leBytes_of_lt value.toNat_lt
  rw [DatumClient.coinbaserFetchResponse, hlength, if_neg (by omega), hsize, hsizeValue]
  simp only
  rw [if_neg (by omega), hbytes, hvalue, hvalueValue]
  simp [readResponse]

/-! ## Runs in which the wait is answered -/

namespace FetchState

/-- Requests and responses have the numbers of requests that were made. -/
structure Numbered (s : FetchState) : Prop where
  stored : ∀ response ∈ s.stored, response.n < s.requests.length ∧ response.time ≤ s.now
  returned : ∀ result ∈ s.returned, result.n < s.requests.length

/-- What the call under way knows. -/
def CallRight (s : FetchState) : Prop :=
  match s.fetch with
  | .idle => True
  | .sent n request | .waiting n request =>
    s.requests[n]? = some request ∧ (∀ result ∈ s.returned, result.n ≠ n) ∧
      ∀ response ∈ s.stored, response.n ≠ n
  | .woken n request =>
    s.requests[n]? = some request ∧ (∀ result ∈ s.returned, result.n ≠ n) ∧
      ∃ response ∈ s.stored, response.n = n ∧
        readResponse s.client.coinbaser request.value = some response.coinbaser

/-- No response was stored in time for a call that returned without one. -/
def MissedRight (s : FetchState) : Prop :=
  ∀ result ∈ s.returned, result.response = none → result.deadline ≤ s.now ∧
    ∀ response ∈ s.stored, response.n = result.n → result.deadline ≤ response.time

/-- The outputs of a call are those of the response that it read, for its own request. -/
def InstalledRight (s : FetchState) : Prop :=
  ∀ result ∈ s.returned, ∃ request, s.requests[result.n]? = some request ∧
    result.outputs = (result.response.map (outputsOf request.value)).getD []

structure InOrder (s : FetchState) : Prop where
  numbered : s.Numbered
  call : s.CallRight
  missed : s.MissedRight
  own : ∀ result ∈ s.returned, ∀ coinbaser, result.response = some coinbaser →
    ∃ response ∈ s.stored, response.n = result.n ∧ response.coinbaser = coinbaser
  installed : s.InstalledRight

theorem Fresh.inOrder {s : FetchState} (h : s.Fresh) : s.InOrder := by
  obtain ⟨hfetch, hrequests, hstored, hreturned⟩ := h
  refine ⟨⟨?_, ?_⟩, ?_, ?_, ?_, ?_⟩
  · rw [hstored]
    exact nofun
  · rw [hreturned]
    exact nofun
  · rw [CallRight, hfetch]
    trivial
  · rw [MissedRight, hreturned]
    exact nofun
  · rw [hreturned]
    exact nofun
  · rw [InstalledRight, hreturned]
    exact nofun

theorem InOrder.matched {s : FetchState} (h : s.InOrder) : s.Matched := by
  refine ⟨?_, ?_, ?_⟩
  · intro result hresult coinbaser hresponse
    obtain ⟨request, hrequest, houtputs⟩ := h.installed result hresult
    rw [hresponse] at houtputs
    exact ⟨h.own result hresult coinbaser hresponse, request, hrequest, houtputs⟩
  · intro result hresult hnone
    obtain ⟨request, -, houtputs⟩ := h.installed result hresult
    rw [houtputs, hnone]
    rfl
  intro result hresult response hresponse hn htime hnone
  have hlate := (h.missed result hresult hnone).2 response hresponse hn
  omega

theorem InOrder.tick {s : FetchState} (h : s.InOrder) (ms : Nat) :
    InOrder { s with now := s.now + ms } := by
  refine ⟨⟨?_, h.numbered.returned⟩, h.call, ?_, h.own, h.installed⟩
  · intro response hresponse
    obtain ⟨hn, htime⟩ := h.numbered.stored response hresponse
    exact ⟨hn, Nat.le_trans htime (Nat.le_add_right _ _)⟩
  · intro result hresult hnone
    obtain ⟨hdeadline, hlate⟩ := h.missed result hresult hnone
    exact ⟨Nat.le_trans hdeadline (Nat.le_add_right _ _), hlate⟩

/-- A new request has a number of its own. -/
theorem InOrder.fetch {s : FetchState} (h : s.InOrder) (request : CoinbaserRequest) :
    InOrder
      { s with
        fetch := .sent s.requests.length request
        requests := s.requests ++ [request] } := by
  have hlength : (s.requests ++ [request]).length = s.requests.length + 1 := by
    rw [List.length_append, List.length_singleton]
  refine ⟨⟨?_, ?_⟩, ⟨?_, ?_, ?_⟩, h.missed, h.own, ?_⟩
  · intro response hresponse
    obtain ⟨hn, htime⟩ := h.numbered.stored response hresponse
    exact ⟨by show response.n < (s.requests ++ [request]).length; omega, htime⟩
  · intro result hresult
    have hn := h.numbered.returned result hresult
    show result.n < (s.requests ++ [request]).length
    omega
  · show (s.requests ++ [request])[s.requests.length]? = some request
    rw [List.getElem?_append_right (Nat.le_refl _), Nat.sub_self]
    rfl
  · intro result hresult
    exact Nat.ne_of_lt (h.numbered.returned result hresult)
  · intro response hresponse
    exact Nat.ne_of_lt (h.numbered.stored response hresponse).1
  · intro result hresult
    obtain ⟨asked, hasked, houtputs⟩ := h.installed result hresult
    exact ⟨asked, List.getElem?_append_left (h.numbered.returned result hresult) ▸ hasked,
      houtputs⟩

theorem InOrder.startWait {s : FetchState} (h : s.InOrder) {n : Nat} {request : CoinbaserRequest}
    (hcall : s.fetch = .sent n request) : InOrder { s with fetch := .waiting n request } := by
  have hright := h.call
  rw [CallRight, hcall] at hright
  exact ⟨⟨h.numbered.stored, h.numbered.returned⟩, hright, h.missed, h.own,
    h.installed⟩

/-- A call returns: without a response, when none came in time, or with one that was stored
    for it. -/
theorem InOrder.finish {s : FetchState} (h : s.InOrder) {n : Nat} {request : CoinbaserRequest}
    (hrequest : s.requests[n]? = some request) {response : Option (List UInt8)}
    (hmissed : response = none → request.deadline ≤ s.now ∧
      ∀ answer ∈ s.stored, answer.n = n → request.deadline ≤ answer.time)
    (hown : ∀ coinbaser, response = some coinbaser →
      ∃ answer ∈ s.stored, answer.n = n ∧ answer.coinbaser = coinbaser) :
    (s.finish n request response).InOrder := by
  refine ⟨⟨h.numbered.stored, ?_⟩, trivial, ?_, ?_, ?_⟩
  · intro result hresult
    rcases List.mem_append.mp hresult with hold | hnew
    · exact h.numbered.returned result hold
    · rw [List.mem_singleton.mp hnew]
      exact (List.getElem?_eq_some_iff.mp hrequest).1
  · intro result hresult hnone
    rcases List.mem_append.mp hresult with hold | hnew
    · exact h.missed result hold hnone
    · rw [List.mem_singleton.mp hnew] at hnone ⊢
      exact hmissed hnone
  · intro result hresult coinbaser hresponse
    rcases List.mem_append.mp hresult with hold | hnew
    · exact h.own result hold coinbaser hresponse
    · rw [List.mem_singleton.mp hnew] at hresponse ⊢
      exact hown coinbaser hresponse
  · intro result hresult
    rcases List.mem_append.mp hresult with hold | hnew
    · exact h.installed result hold
    · rw [List.mem_singleton.mp hnew]
      refine ⟨request, hrequest, ?_⟩
      cases response <;> rfl

/-- The wait is over without a response, so none was stored. -/
theorem InOrder.timeout {s : FetchState} (h : s.InOrder) {n : Nat} {request : CoinbaserRequest}
    (hcall : s.fetch = .waiting n request) (hdeadline : request.deadline ≤ s.now) :
    (s.finish n request none).InOrder := by
  have hright := h.call
  rw [CallRight, hcall] at hright
  obtain ⟨hrequest, -, hnothing⟩ := hright
  refine h.finish hrequest (fun _ => ⟨hdeadline, ?_⟩) ?_
  · intro response hresponse hn
    exact absurd hn (hnothing response hresponse)
  · intro coinbaser hresponse
    cases hresponse

/-- The call that was woken reads the response to its request. -/
theorem InOrder.resume {s : FetchState} (h : s.InOrder) {n : Nat} {request : CoinbaserRequest}
    (hcall : s.fetch = .woken n request) :
    (s.finish n request (readResponse s.client.coinbaser request.value)).InOrder := by
  have hright := h.call
  rw [CallRight, hcall] at hright
  obtain ⟨hrequest, -, answer, hanswer, hn, hread⟩ := hright
  rw [hread]
  refine h.finish hrequest ?_ ?_
  · intro hnone
    cases hnone
  · intro coinbaser hresponse
    exact ⟨answer, hanswer, hn, Option.some.inj hresponse⟩

/-- A response that ends the wait for its request, or comes when nobody waits. -/
theorem InOrder.store {s : FetchState} (h : s.InOrder) {n : Nat} {request : CoinbaserRequest}
    {coinbaser : List UInt8} (hrequest : s.requests[n]? = some request)
    (hlow : 1 ≤ coinbaser.length) (hhigh : coinbaser.length ≤ 32767) (hawaited : s.Awaited n) :
    (s.store n request coinbaser).InOrder := by
  have hlt : n < s.requests.length := (List.getElem?_eq_some_iff.mp hrequest).1
  have hread := coinbaser_response s.client request.value hlow hhigh
  have hnew : (⟨n, coinbaser, s.now⟩ : StoredResponse) ∈ s.stored ++
      [⟨n, coinbaser, s.now⟩] :=
    List.mem_append_right _ (List.mem_singleton.mpr rfl)
  simp only [FetchState.store]
  generalize (s.client.coinbaserFetchResponse ⟨[], true, 0⟩
    (coinbaserResponse request.value coinbaser).length
    (coinbaserResponse request.value coinbaser)).1 = client at hread ⊢
  refine ⟨⟨?_, h.numbered.returned⟩, ?_, ?_, ?_, h.installed⟩
  · intro response hresponse
    rcases List.mem_append.mp hresponse with hold | hnow
    · exact h.numbered.stored response hold
    · rw [List.mem_singleton.mp hnow]
      exact ⟨hlt, Nat.le_refl _⟩
  · have hright := h.call
    have hsame {current : Nat} {asked : CoinbaserRequest}
        (hasked : s.requests[current]? = some asked) (hcurrent : n = current) :
        asked = request := by
      rw [← hcurrent, hrequest] at hasked
      exact (Option.some.inj hasked).symm
    rw [CallRight] at hright
    rw [Awaited] at hawaited
    rw [CallRight]
    cases hcall : s.fetch with
    | idle => trivial
    | sent current asked =>
      rw [hcall] at hright hawaited
      refine ⟨hright.1, hright.2.1, ?_⟩
      intro response hresponse
      rcases List.mem_append.mp hresponse with hold | hnow
      · exact hright.2.2 response hold
      · rw [List.mem_singleton.mp hnow]
        exact hawaited
    | waiting current asked =>
      rw [hcall] at hright hawaited
      exact ⟨hright.1, hright.2.1, _, hnew, hawaited, hsame hright.1 hawaited ▸ hread⟩
    | woken current asked =>
      rw [hcall] at hright hawaited
      exact ⟨hright.1, hright.2.1, _, hnew, hawaited, hsame hright.1 hawaited ▸ hread⟩
  · intro result hresult hnone
    obtain ⟨hdeadline, hlate⟩ := h.missed result hresult hnone
    refine ⟨hdeadline, fun response hresponse hn => ?_⟩
    rcases List.mem_append.mp hresponse with hold | hnow
    · exact hlate response hold hn
    · rw [List.mem_singleton.mp hnow]
      exact hdeadline
  · intro result hresult coinbaser' hresponse
    obtain ⟨response, hmem, hrest⟩ := h.own result hresult coinbaser' hresponse
    exact ⟨response, List.mem_append_left _ hmem, hrest⟩

theorem InOrder.step {s s' : FetchState} (h : s.InOrder) {event : FetchEvent}
    (hanswers : s.AnswersWait event) (hstep : s.step event = some s') : s'.InOrder := by
  cases event with
  | tick ms =>
    rw [← Option.some.inj hstep]
    exact h.tick ms
  | fetch value prevhash active =>
    simp only [FetchState.step] at hstep
    split at hstep
    · split at hstep
      · rw [← Option.some.inj hstep]
        exact h
      · rw [← Option.some.inj hstep]
        exact h.fetch _
    · cases hstep
  | startWait =>
    simp only [FetchState.step] at hstep
    split at hstep
    · next hcall =>
      rw [← Option.some.inj hstep]
      exact h.startWait hcall
    · cases hstep
  | respond n coinbaser =>
    simp only [FetchState.step] at hstep
    split at hstep
    · next hrequest =>
      split at hstep
      · next hlength =>
        rw [← Option.some.inj hstep]
        exact h.store hrequest hlength.1 hlength.2 hanswers
      · cases hstep
    · cases hstep
  | spurious => exact hanswers.elim
  | timeout =>
    simp only [FetchState.step] at hstep
    split at hstep
    · next hcall =>
      split at hstep
      · next hdeadline =>
        rw [← Option.some.inj hstep]
        exact h.timeout hcall hdeadline
      · cases hstep
    · cases hstep
  | resume =>
    simp only [FetchState.step] at hstep
    split at hstep
    · next hcall =>
      rw [← Option.some.inj hstep]
      exact h.resume hcall
    · cases hstep

end FetchState

/-- While only the response to a request ends the wait for it, calls install their own
    responses and miss none. -/
theorem matched_of_answersWait {s : FetchState}
    (hrun : fetchSystem.ReachedBy FetchState.AnswersWait FetchState.Fresh s) : s.Matched := by
  have hinOrder : s.InOrder :=
    hrun.invariant (fun _ hstart => hstart.inOrder) fun _ _ _ h hanswers hstep =>
      h.step hanswers hstep
  exact hinOrder.matched

/-! ## Three runs -/

def noFetch : FetchState where
  client := DatumClient.readyClient
  fetch := .idle
  now := 0
  requests := []
  stored := []
  returned := []

theorem noFetch_fresh : noFetch.Fresh := ⟨rfl, rfl, rfl, rfl⟩

/-- A coinbaser with one output. -/
def oneOutput : List UInt8 := [7, 1, 0, 0, 0, 0, 0, 0, 0, 2, 0x51, 0x51]

theorem length_sameBytes (byte : UInt8) : (List.replicate 32 byte).length = 32 :=
  List.length_replicate

def hashOf (byte : UInt8) : Hash32 := ⟨List.replicate 32 byte, length_sameBytes byte⟩

/-- A request that is answered after a second, and one that is not answered in time. -/
theorem exists_matched : ∃ s,
    fetchSystem.ReachedBy FetchState.AnswersWait FetchState.Fresh s ∧
      s.returned.map FetchResult.response = [some oneOutput, none] ∧
      s.returned.map FetchResult.outputs = [[⟨[0x51, 0x51], 1⟩], []] ∧ s.Matched := by
  obtain ⟨s, hrun, hreturned⟩ := System.exists_reachedBy_of_replay fetchSystem noFetch_fresh
    (fun s event => s.AnswersWait event)
    [.fetch 5000000000 (hashOf 1) true, .startWait, .tick 1000, .respond 0 oneOutput, .resume,
      .fetch 5000000000 (hashOf 2) true, .startWait, .tick 5000, .timeout, .respond 1 oneOutput]
    (fun s => s.returned.map FetchResult.response = [some oneOutput, none] ∧
      s.returned.map FetchResult.outputs = [[⟨[0x51, 0x51], 1⟩], []])
    (fun _ _ h => of_decide_eq_true h) (by decide +kernel)
  obtain ⟨hresponses, houtputs⟩ := of_decide_eq_true hreturned
  exact ⟨s, hrun, hresponses, houtputs, matched_of_answersWait hrun⟩

/-- A response that is handled before the wait begins is not seen for five seconds. A late
    response to the request before ends the wait for one of the same value, on another
    previous block, and its outputs are taken. -/
theorem exists_not_matched :
    (∃ s, fetchSystem.Reachable FetchState.Fresh s ∧
      ∃ result ∈ s.returned, result.response = none ∧
        ∃ response ∈ s.stored, response.n = result.n ∧ response.time < result.deadline) ∧
    (∃ s, fetchSystem.Reachable FetchState.Fresh s ∧
      ∃ result ∈ s.returned, result.outputs ≠ [] ∧
        ∀ response ∈ s.stored, response.n ≠ result.n) := by
  constructor
  · obtain ⟨s, hrun, hlost⟩ := System.exists_reachedBy_of_replay fetchSystem noFetch_fresh
      (fun _ _ => true)
      [.fetch 5000000000 (hashOf 1) true, .respond 0 oneOutput, .startWait, .tick 5000, .timeout]
      (fun s => s.returned = [⟨0, 5000, none, []⟩] ∧ s.stored = [⟨0, oneOutput, 0⟩])
      (fun _ _ _ => trivial) (by decide +kernel)
    obtain ⟨hreturned, hstored⟩ := of_decide_eq_true hlost
    refine ⟨s, hrun, ⟨0, 5000, none, []⟩, ?_, rfl, ⟨0, oneOutput, 0⟩, ?_, rfl,
      by decide⟩
    · rw [hreturned]
      exact List.mem_singleton.mpr rfl
    · rw [hstored]
      exact List.mem_singleton.mpr rfl
  · obtain ⟨s, hrun, hstale⟩ := System.exists_reachedBy_of_replay fetchSystem noFetch_fresh
      (fun _ _ => true)
      [.fetch 5000000000 (hashOf 1) true, .startWait, .tick 5000, .timeout,
        .fetch 5000000000 (hashOf 2) true, .startWait, .respond 0 oneOutput, .resume]
      (fun s => s.returned =
          [⟨0, 5000, none, []⟩, ⟨1, 10000, some oneOutput, [⟨[0x51, 0x51], 1⟩]⟩] ∧
        s.stored = [⟨0, oneOutput, 5000⟩])
      (fun _ _ _ => trivial) (by decide +kernel)
    obtain ⟨hreturned, hstored⟩ := of_decide_eq_true hstale
    refine ⟨s, hrun, ⟨1, 10000, some oneOutput, [⟨[0x51, 0x51], 1⟩]⟩, ?_,
      List.cons_ne_nil _ _, ?_⟩
    · rw [hreturned]
      exact List.mem_cons_of_mem _ (List.mem_singleton.mpr rfl)
    · intro response hresponse
      rw [hstored] at hresponse
      rw [List.mem_singleton.mp hresponse]
      exact Nat.zero_ne_one

end ChirpGateway
