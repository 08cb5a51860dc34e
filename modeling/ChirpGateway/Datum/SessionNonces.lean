import ChirpGateway.Datum.Send
import ChirpGateway.Lib.CyclicRanges
import ChirpGateway.Lib.RoundRobin
import Mathlib.Data.Nat.Digits.Lemmas

/-!
# The nonces of a session

Both ways use the key of the session, each with a nonce of its own that is counted up with
every message. The first two come from a word of the handshake (`datum_protocol.c:1073-1082`),
the later ones from `datum_increment_session_nonce` (`datum_protocol.c:1107-1120`).
-/

namespace ChirpGateway

open CyclicRanges

/-- `crypto_box_NONCEBYTES`. -/
def cryptoBoxNoncebytes : Nat := 24

/-- The loop of `datum_protocol_send_hello` over the words of both nonces: that of the receiver
    and that of the sender. -/
def setupNonces : (words : Nat) → (nk : UInt32) → SessionNonce × SessionNonce
  | 0, _ => ([], [])
  | words + 1, nk =>
    let receiver := headerXorFeedback (nk - 42)
    let sender := receiver ^^^ 0x57575757
    let rest := setupNonces words (~~~receiver)
    (receiver :: rest.1, sender :: rest.2)

/-- The nonces of a session, from `nk` and the word at 7 of the public key. -/
def sessionNonces (nk keyWord : UInt32) : SessionNonce × SessionNonce :=
  setupNonces (cryptoBoxNoncebytes / 4) ((nk - 42) ^^^ keyWord)

/-- The nonce as a number, the lowest word first. -/
def nonceValue (nonce : SessionNonce) : Nat := Nat.ofDigits (2 ^ 32) (nonce.map UInt32.toNat)

/-! ## Counting up -/

theorem nonceValue_cons (word : UInt32) (nonce : SessionNonce) :
    nonceValue (word :: nonce) = word.toNat + 2 ^ 32 * nonceValue nonce := by
  rw [nonceValue, List.map_cons, Nat.ofDigits_cons]
  rfl

theorem nonceValue_lt (nonce : SessionNonce) : nonceValue nonce < (2 ^ 32) ^ nonce.length := by
  have hlt := Nat.ofDigits_lt_base_pow_length (b := 2 ^ 32) (l := nonce.map UInt32.toNat)
    (by decide) ?_
  · simpa [nonceValue] using hlt
  · intro digit hdigit
    obtain ⟨word, -, rfl⟩ := List.mem_map.mp hdigit
    exact word.toNat_lt

theorem length_incrementSessionNonce (nonce : SessionNonce) :
    (incrementSessionNonce nonce).length = nonce.length := by
  induction nonce with
  | nil => rfl
  | cons word nonce ih =>
    rw [incrementSessionNonce]
    split_ifs
    · rw [List.length_cons, ih, List.length_cons]
    · rfl

/-- The carry goes on to the next word as long as a word overflows. -/
theorem nonceValue_incrementSessionNonce (nonce : SessionNonce) :
    nonceValue (incrementSessionNonce nonce) =
      (nonceValue nonce + 1) % (2 ^ 32) ^ nonce.length := by
  induction nonce with
  | nil => rfl
  | cons word nonce ih =>
    have hword := word.toNat_lt
    have hroom := Nat.mul_le_mul_left (2 ^ 32) (nonceValue_lt nonce)
    have hsum : (word + 1).toNat = (word.toNat + 1) % 2 ^ 32 := UInt32.toNat_add word 1
    rw [incrementSessionNonce, List.length_cons, Nat.pow_succ', nonceValue_cons word]
    by_cases hcarry : word + 1 = 0
    · rw [hcarry, UInt32.toNat_zero] at hsum
      have hturn : word.toNat + 2 ^ 32 * nonceValue nonce + 1 =
          2 ^ 32 * (nonceValue nonce + 1) := by
        omega
      rw [if_pos hcarry, nonceValue_cons, ih, hcarry, hturn, Nat.mul_mod_mul_left,
        UInt32.toNat_zero, Nat.zero_add]
    · have hstill : word.toNat + 1 < 2 ^ 32 := by
        have hne : (word + 1).toNat ≠ 0 := fun hzero => hcarry (UInt32.toNat_inj.mp hzero)
        omega
      rw [if_neg hcarry, nonceValue_cons, hsum, Nat.mod_eq_of_lt hstill,
        Nat.mod_eq_of_lt (by omega)]
      omega

/-- The nonce of a later message. -/
theorem nonceValue_iterate (nonce : SessionNonce) (count : Nat) :
    nonceValue (incrementSessionNonce^[count] nonce) =
      (nonceValue nonce + count) % (2 ^ 32) ^ nonce.length := by
  have hlength (count : Nat) :
      (incrementSessionNonce^[count] nonce).length = nonce.length := by
    induction count with
    | zero => rfl
    | succ count ih => rw [Function.iterate_succ_apply', length_incrementSessionNonce, ih]
  induction count with
  | zero => exact (Nat.mod_eq_of_lt (nonceValue_lt nonce)).symm
  | succ count ih =>
    rw [Function.iterate_succ_apply', nonceValue_incrementSessionNonce, ih, hlength,
      Nat.mod_add_mod, Nat.add_assoc]

/-! ## The first nonces -/

theorem length_setupNonces (words : Nat) (nk : UInt32) :
    (setupNonces words nk).1.length = words ∧ (setupNonces words nk).2.length = words := by
  induction words generalizing nk with
  | zero => exact ⟨rfl, rfl⟩
  | succ words ih =>
    obtain ⟨hreceiver, hsender⟩ := ih (~~~(headerXorFeedback (nk - 42)))
    exact ⟨congrArg (· + 1) hreceiver, congrArg (· + 1) hsender⟩

/-- Two words of the first nonces are apart by the highest bit of the mask, less the others. -/
theorem apart_word (receiver : UInt32) :
    Apart (2 ^ 32) (0x28a8a8a8 + 1) (receiver ^^^ 0x57575757).toNat receiver.toNat := by
  have hmask : (receiver ^^^ 0x57575757).toNat = receiver.toNat ^^^ (2 ^ 30 + 0x17575757) :=
    UInt32.toNat_xor receiver 0x57575757
  have hmove := xor_mask receiver.toNat (show 0x17575757 < 2 ^ 30 by decide)
  rw [hmask]
  unfold Apart
  omega

/-- The highest words decide how far the first nonces are from each other. -/
theorem apart_setupNonces (words : Nat) (nk : UInt32) :
    Apart ((2 ^ 32) ^ (words + 1)) (0x28a8a8a8 * (2 ^ 32) ^ words + 1)
      (nonceValue (setupNonces (words + 1) nk).2) (nonceValue (setupNonces (words + 1) nk).1) := by
  induction words generalizing nk with
  | zero => simpa [setupNonces, nonceValue] using apart_word (headerXorFeedback (nk - 42))
  | succ words ih =>
    have hrest := (ih (~~~headerXorFeedback (nk - 42))).digit
      (headerXorFeedback (nk - 42) ^^^ 0x57575757).toNat_lt (headerXorFeedback (nk - 42)).toNat_lt
    have hcount : 0x28a8a8a8 * (2 ^ 32) ^ (words + 1) =
        2 ^ 32 * (0x28a8a8a8 * (2 ^ 32) ^ words) := by
      rw [Nat.pow_succ', Nat.mul_left_comm]
    rw [setupNonces, nonceValue_cons, nonceValue_cons, Nat.pow_succ', hcount]
    exact hrest

theorem nonceValue_session (nk keyWord : UInt32) (count : Nat) :
    nonceValue (incrementSessionNonce^[count] (sessionNonces nk keyWord).1) =
        (nonceValue (sessionNonces nk keyWord).1 + count) % (2 ^ 32) ^ 6 ∧
      nonceValue (incrementSessionNonce^[count] (sessionNonces nk keyWord).2) =
        (nonceValue (sessionNonces nk keyWord).2 + count) % (2 ^ 32) ^ 6 := by
  obtain ⟨hreceiver, hsender⟩ := length_setupNonces 6 ((nk - 42) ^^^ keyWord)
  constructor
  · rw [nonceValue_iterate]
    exact congrArg (fun length => _ % (2 ^ 32) ^ length) hreceiver
  · rw [nonceValue_iterate]
    exact congrArg (fun length => _ % (2 ^ 32) ^ length) hsender

/-- The first `2 ^ 64` nonces of a session are different from each other, those it sends with,
    those it receives with, and the ones from the others. -/
theorem sessionNonces_distinct (nk keyWord : UInt32) :
    (∀ nonce : SessionNonce, nonce.length = cryptoBoxNoncebytes / 4 →
      nonceValue (incrementSessionNonce nonce) = (nonceValue nonce + 1) % 2 ^ 192) ∧
    ∀ i < 2 ^ 64, ∀ j < 2 ^ 64,
      (i ≠ j → incrementSessionNonce^[i] (sessionNonces nk keyWord).1 ≠
        incrementSessionNonce^[j] (sessionNonces nk keyWord).1) ∧
      (i ≠ j → incrementSessionNonce^[i] (sessionNonces nk keyWord).2 ≠
        incrementSessionNonce^[j] (sessionNonces nk keyWord).2) ∧
      incrementSessionNonce^[i] (sessionNonces nk keyWord).2 ≠
        incrementSessionNonce^[j] (sessionNonces nk keyWord).1 := by
  constructor
  · intro nonce hlength
    rw [nonceValue_incrementSessionNonce, hlength]
    rfl
  · intro i hi j hj
    have hsmall : 2 ^ 64 ≤ (2 ^ 32) ^ 6 := by decide
    obtain ⟨hreceiverI, hsenderI⟩ := nonceValue_session nk keyWord i
    obtain ⟨hreceiverJ, hsenderJ⟩ := nonceValue_session nk keyWord j
    refine ⟨fun hne hsame => hne ?_, fun hne hsame => hne ?_, fun hsame => ?_⟩
    · have hvalue := congrArg nonceValue hsame
      rw [hreceiverI, hreceiverJ] at hvalue
      exact RoundRobin.eq_of_mod_eq (hi.trans_le hsmall) (hj.trans_le hsmall) hvalue
    · have hvalue := congrArg nonceValue hsame
      rw [hsenderI, hsenderJ] at hvalue
      exact RoundRobin.eq_of_mod_eq (hi.trans_le hsmall) (hj.trans_le hsmall) hvalue
    · have hvalue := congrArg nonceValue hsame
      rw [hsenderI, hreceiverJ] at hvalue
      have hapart := (apart_setupNonces 5 ((nk - 42) ^^^ keyWord)).mono
        (show 2 ^ 64 ≤ 0x28a8a8a8 * (2 ^ 32) ^ 5 + 1 by decide)
      exact hapart.mod_ne hi hj hvalue

end ChirpGateway
