import ChirpGateway.Sockets.ThreadPool
import ChirpGateway.Stratum.Messages

/-!
# Session ids

The first half of the extranonce of a client is made of its place in the pool of threads when
it subscribes (`datum_stratum.c:792-808`, `1944-2004`), so that no two subscribed clients work on
the same thing. Before that it is zero (`datum_stratum.c:361`).
-/

namespace ChirpGateway

open Bytes Wire

/-- `get_new_session_id` of the client `cid` of thread `threadId`. -/
def getNewSessionId (threadId cid : Nat) : UInt32 :=
  let i := UInt32.ofNat cid &&& (0x003fffff : UInt32)
  let i := i ||| ((UInt32.ofNat threadId <<< 22) &&& (0xffc00000 : UInt32))
  i ^^^ 0xb10cf00d

/-- `sid_inv`. -/
def sidInverted (sid : UInt32) : UInt32 :=
  ((sid >>> 24) &&& (0xff : UInt32)) ||| (((sid >>> 16) &&& (0xff : UInt32)) <<< 8) |||
    (((sid >>> 8) &&& (0xff : UInt32)) <<< 16) ||| ((sid &&& (0xff : UInt32)) <<< 24)

/-- What the record of a client holds of its session. -/
structure Session where
  sidInv : UInt32
  subscribed : Bool

inductive SessionEvent where
  /-- `datum_stratum_v1_socket_thread_client_new` -/
  | new
  /-- `client_mining_subscribe` -/
  | subscribe

/-- Of the client `cid` of thread `threadId`; whoever is subscribed is not subscribed again. -/
def Session.step (threadId cid : Nat) (session : Session) : SessionEvent → Session
  | .new => { sidInv := 0, subscribed := false }
  | .subscribe =>
    if session.subscribed then session
    else { sidInv := sidInverted (getNewSessionId threadId cid), subscribed := true }

/-- The session of a client that has come, after what happened since. -/
def sessionAfter (threadId cid : Nat) (events : List SessionEvent) : Session :=
  events.foldl (Session.step threadId cid) { sidInv := 0, subscribed := false }

/-- A client that has come there and is subscribed. -/
def SubscribedAt (threadId cid : Nat) (m : MinerData) : Prop :=
  ∃ events, (sessionAfter threadId cid events).subscribed = true ∧
    m.sidInv = (sessionAfter threadId cid events).sidInv

theorem Session.sidInv_step {threadId cid : Nat} {session : Session}
    (h : session.subscribed = true → session.sidInv = sidInverted (getNewSessionId threadId cid))
    (event : SessionEvent) (hsubscribed : (session.step threadId cid event).subscribed = true) :
    (session.step threadId cid event).sidInv = sidInverted (getNewSessionId threadId cid) := by
  cases event with
  | new => cases hsubscribed
  | subscribe =>
    rw [Session.step] at hsubscribed ⊢
    split
    · next halready => exact h halready
    · rfl

theorem SubscribedAt.sidInv {threadId cid : Nat} {m : MinerData} (h : SubscribedAt threadId cid m) :
    m.sidInv = sidInverted (getNewSessionId threadId cid) := by
  obtain ⟨events, hsubscribed, hsid⟩ := h
  rw [hsid]
  clear hsid
  induction events using List.reverseRecOn with
  | nil => cases hsubscribed
  | append_singleton events event ih =>
    rw [sessionAfter, List.foldl_append, List.foldl_cons, List.foldl_nil] at hsubscribed ⊢
    exact Session.sidInv_step ih event hsubscribed

/-- The last ten and the last twenty-two bits. -/
theorem toNat_getNewSessionId (threadId cid : Nat) : (getNewSessionId threadId cid).toNat =
    (threadId % 2 ^ 10 * 2 ^ 22 + cid % 2 ^ 22) ^^^ 0xb10cf00d := by
  have hcid : (UInt32.ofNat cid &&& (0x003fffff : UInt32)).toNat = cid % 2 ^ 22 := by
    rw [UInt32.toNat_and, UInt32.toNat_ofNat']
    show (cid % 2 ^ 32) &&& (2 ^ 22 - 1) = _
    rw [Nat.and_two_pow_sub_one_eq_mod, Nat.mod_mod_of_dvd _ (by decide)]
  have hthread : ((UInt32.ofNat threadId <<< 22) &&& (0xffc00000 : UInt32)).toNat =
      (threadId % 2 ^ 10) <<< 22 := by
    have hshifted : (UInt32.ofNat threadId <<< 22).toNat = (threadId % 2 ^ 10) <<< 22 := by
      rw [UInt32.toNat_shiftLeft, UInt32.toNat_ofNat', Nat.shiftLeft_eq, Nat.shiftLeft_eq]
      show threadId % 2 ^ 32 * 2 ^ 22 % 2 ^ 32 = _
      omega
    rw [UInt32.toNat_and, hshifted]
    show ((threadId % 2 ^ 10) <<< 22) &&& ((2 ^ 10 - 1) <<< 22) = _
    rw [← Nat.shiftLeft_and_distrib, Nat.and_two_pow_sub_one_eq_mod, Nat.mod_mod]
  unfold getNewSessionId
  dsimp only
  rw [UInt32.toNat_xor, UInt32.toNat_or, hcid, hthread, Nat.or_comm,
    ← Nat.shiftLeft_add_eq_or_of_lt (Nat.mod_lt _ (by decide)), Nat.shiftLeft_eq]
  rfl

/-- Two ids are the same for places that are the same modulo 1024 threads and 4194304
    clients. -/
theorem getNewSessionId_eq_iff {threadId threadId' cid cid' : Nat} :
    getNewSessionId threadId cid = getNewSessionId threadId' cid' ↔
      threadId % 2 ^ 10 = threadId' % 2 ^ 10 ∧ cid % 2 ^ 22 = cid' % 2 ^ 22 := by
  rw [← UInt32.toNat_inj, toNat_getNewSessionId, toNat_getNewSessionId, Nat.xor_left_inj]
  omega

theorem toNat_byte (n : UInt32) : (n &&& (0xff : UInt32)).toNat = n.toNat % 2 ^ 8 := by
  rw [UInt32.toNat_and]
  show n.toNat &&& (2 ^ 8 - 1) = _
  rw [Nat.and_two_pow_sub_one_eq_mod]

theorem toNat_byte_lt (n : UInt32) : (n &&& (0xff : UInt32)).toNat < 2 ^ 8 := by
  rw [toNat_byte]
  exact Nat.mod_lt _ (by decide)

/-- A byte in front of a number that does not reach it. -/
theorem toNat_or_byte (shift : Nat) (hshift : shift ≤ 24) {rest byte : UInt32}
    (hrest : rest.toNat < 2 ^ shift) (hbyte : byte.toNat < 2 ^ 8) :
    (rest ||| (byte <<< UInt32.ofNat shift)).toNat = rest.toNat + byte.toNat * 2 ^ shift := by
  have hpow : byte.toNat * 2 ^ shift < 2 ^ 32 :=
    calc byte.toNat * 2 ^ shift < 2 ^ 8 * 2 ^ shift :=
          Nat.mul_lt_mul_of_pos_right hbyte (Nat.two_pow_pos _)
      _ ≤ 2 ^ 8 * 2 ^ 24 := Nat.mul_le_mul_left _ (Nat.pow_le_pow_right (by decide) hshift)
  have hamount : (UInt32.ofNat shift).toNat % 32 = shift := by
    rw [UInt32.toNat_ofNat']
    omega
  rw [UInt32.toNat_or, UInt32.toNat_shiftLeft, hamount, Nat.shiftLeft_eq, Nat.mod_eq_of_lt hpow,
    ← Nat.shiftLeft_eq, Nat.or_comm, ← Nat.shiftLeft_add_eq_or_of_lt hrest, Nat.shiftLeft_eq,
    Nat.add_comm]

theorem toNat_sidInverted (sid : UInt32) : (sidInverted sid).toNat =
    sid.toNat / 2 ^ 24 % 2 ^ 8 + sid.toNat / 2 ^ 16 % 2 ^ 8 * 2 ^ 8 +
      sid.toNat / 2 ^ 8 % 2 ^ 8 * 2 ^ 16 + sid.toNat % 2 ^ 8 * 2 ^ 24 := by
  have hfirst := toNat_byte_lt (sid >>> 24)
  have hsecond := toNat_byte_lt (sid >>> 16)
  have hthird := toNat_byte_lt (sid >>> 8)
  have htwo := toNat_or_byte 8 (by decide) hfirst hsecond
  have hthree := toNat_or_byte 16 (by decide) (by rw [htwo]; omega) hthird
  have hfour := toNat_or_byte 24 (by decide) (by rw [hthree, htwo]; omega) (toNat_byte_lt sid)
  refine hfour.trans ?_
  rw [hthree, htwo, toNat_byte, toNat_byte, toNat_byte, toNat_byte]
  simp only [UInt32.toNat_shiftRight, Nat.shiftRight_eq_div_pow]
  rfl

/-- The bytes of the id the other way around. -/
theorem leBytes_sidInverted (sid : UInt32) :
    leBytes 4 (sidInverted sid).toNat = (leBytes 4 sid.toNat).reverse := by
  have hdigits (a b c d : Nat) (hb : b < 2 ^ 8) (hc : c < 2 ^ 8) (hd : d < 2 ^ 8) :
      leBytes 4 (d + c * 2 ^ 8 + b * 2 ^ 16 + a * 2 ^ 24) =
        [UInt8.ofNat d, UInt8.ofNat c, UInt8.ofNat b, UInt8.ofNat a] := by
    simp only [leBytes, List.cons.injEq, ← UInt8.toNat_inj, UInt8.toNat_ofNat', and_true]
    omega
  have hlt (n : Nat) : n % 2 ^ 8 < 2 ^ 8 := Nat.mod_lt n (by decide)
  rw [toNat_sidInverted, hdigits _ _ _ _ (hlt _) (hlt _) (hlt _)]
  simp [leBytes, ← UInt8.toNat_inj, Nat.div_div_eq_div_mul]

theorem sidInverted_inj {sid sid' : UInt32} (h : sidInverted sid = sidInverted sid') :
    sid = sid' := by
  have hbytes : leBytes 4 sid.toNat = leBytes 4 sid'.toNat := by
    rw [← List.reverse_inj, ← leBytes_sidInverted, ← leBytes_sidInverted, h]
  have hvalues := congrArg leValue hbytes
  rwa [leValue_leBytes_of_lt sid.toNat_lt, leValue_leBytes_of_lt sid'.toNat_lt, UInt32.toNat_inj]
    at hvalues

/-- The extranonce of a share begins with the id of its client. -/
theorem take_submittedExtranonce {m : MinerData} {params : Json}
    {extranonce : { bytes : List UInt8 // bytes.length = 12 }}
    (h : submittedExtranonce m params = .ok extranonce) :
    extranonce.val.take 4 = leBytes 4 m.sidInv.toNat := by
  unfold submittedExtranonce at h
  split at h
  · cases h
  · split at h
    · cases h
      exact List.take_left' (length_leBytes _ _)
    · cases h

/-- Of the clients that were given a slot, two have the same id if and only if it was the same
    slot. Shares of subscribed clients in different slots never have the same extranonce, whatever
    is submitted, and the first half of it is the one that the reply to the subscription names. -/
theorem extranonces_apart {cfg : ServerLimits} {s : ThreadPool}
    (h : (poolSystem cfg).ReachedBy (fun s event => s.Allows cfg event)
      (fun s => s.IsStarted cfg) s)
    {tid cid tid' cid' : Nat} {launched launched' : Bool} {came came' : Arrival}
    {found found' : Loads}
    (hplaced : .placed tid cid launched came found ∈ s.placements)
    (hplaced' : .placed tid' cid' launched' came' found' ∈ s.placements) :
    (getNewSessionId tid cid = getNewSessionId tid' cid' ↔ tid = tid' ∧ cid = cid') ∧
    ∀ (m m' : MinerData) (params params' : Json),
      SubscribedAt tid cid m → SubscribedAt tid' cid' m' →
      ∀ extranonce, submittedExtranonce m params = .ok extranonce →
        Hex.encode (extranonce.val.take 4) = hex8 (getNewSessionId tid cid) ∧
        (submittedExtranonce m' params' = .ok extranonce → tid = tid' ∧ cid = cid') := by
  have hright := (ThreadPool.kept_of_reachable h).right
  obtain ⟨-, -, -, -, hchosen, hcid, -⟩ := hright.of_mem hplaced
  obtain ⟨-, -, -, -, hchosen', hcid', -⟩ := hright.of_mem hplaced'
  have htid := hchosen.inRange
  have htid' := hchosen'.inRange
  have hthreads := cfg.maxThreads_le
  have hclients := cfg.maxClientsThread_le
  have hids : getNewSessionId tid cid = getNewSessionId tid' cid' ↔
      tid = tid' ∧ cid = cid' := by
    rw [getNewSessionId_eq_iff]
    omega
  refine ⟨hids, fun m m' params params' hm hm' extranonce hextranonce =>
    ⟨?_, fun hother => ?_⟩⟩
  · rw [take_submittedExtranonce hextranonce, hm.sidInv, leBytes_sidInverted]
    rfl
  · have hbytes :=
      (take_submittedExtranonce hextranonce).symm.trans (take_submittedExtranonce hother)
    have hvalues := congrArg leValue hbytes
    rw [leValue_leBytes_of_lt m.sidInv.toNat_lt, leValue_leBytes_of_lt m'.sidInv.toNat_lt,
      UInt32.toNat_inj, hm.sidInv, hm'.sidInv] at hvalues
    exact hids.mp (sidInverted_inj hvalues)

/-- The first clients of two threads. -/
theorem extranonces_apart_two :
    getNewSessionId 1 0 ≠ getNewSessionId 0 0 ∧ ∀ m m' : MinerData,
      SubscribedAt 1 0 m → SubscribedAt 0 0 m' →
      ∀ (params : Json) extranonce, submittedExtranonce m params = .ok extranonce →
        submittedExtranonce m' params ≠ .ok extranonce := by
  have hstart : (poolSystem smallPool).ReachedBy (fun s event => s.Allows smallPool event)
      (fun s => s.IsStarted smallPool) freshPool := .start freshPool_isStarted
  have hlaunched := hstart.step (a := PoolEvent.accept 5 true) (show (5 : Int) ≠ 0 by decide) rfl
  have hfirst := hlaunched.step (a := PoolEvent.place) trivial rfl
  have hagain := hfirst.step (a := PoolEvent.accept 6 true) (show (6 : Int) ≠ 0 by decide) rfl
  have hsecond := hagain.step (a := PoolEvent.place) trivial rfl
  obtain ⟨hids, hshares⟩ := extranonces_apart hsecond List.mem_cons_self
    (List.mem_cons_of_mem _ List.mem_cons_self)
  refine ⟨fun heq => absurd (hids.mp heq).1 (by decide), ?_⟩
  intro m m' hm hm' params extranonce hextranonce hother
  exact absurd (((hshares m m' params params hm hm' extranonce hextranonce).2 hother).1) (by decide)

end ChirpGateway
