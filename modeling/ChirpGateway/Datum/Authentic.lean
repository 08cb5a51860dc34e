import ChirpGateway.Datum.ServerMsg

/-!
# Messages nobody has vouched for

A message that was neither opened nor signed is rejected if it claims to be either.
One that claims nothing is handled like the others: which of its commands take
effect is said here.
-/

namespace ChirpGateway

open Bytes Wire

namespace DatumClient

/-- What a message may not touch unless it is authentic. -/
structure Untouched (s s' : DatumClient) : Prop where
  coinbaser : s'.coinbaser = s.coinbaser
  config : s'.config = s.config
  keys : s'.keys = s.keys
  datumState : s'.datumState = s.datumState
  tallies : s'.tallies = s.tallies
  newNotifyThreadsafe : s'.newNotifyThreadsafe = s.newNotifyThreadsafe
  replies : s'.replies = s.replies

/-- The message was not opened as a sealed one or under the session, and its
    signature, if it has one, does not verify. -/
structure Unauthentic (crypto : DatumCrypto) (s : DatumClient) (h : DatumHeader)
    (data : List UInt8) : Prop where
  not_sealed : h.isEncryptedPubkey = true → h.isEncryptedChannel = false →
    s.openSealed crypto h data = none
  not_encrypted : h.isEncryptedPubkey = false → h.isEncryptedChannel = true →
    s.openStandard crypto h data = none
  not_signed : h.isSigned = true → s.signatureVerifies crypto h data = false

section Commands

variable (crypto : DatumCrypto) (env : MsgEnv) (s : DatumClient)

/-- A coinbaser response that is stored. -/
def IsCoinbaser (len : Nat) (data : List UInt8) : Prop :=
  12 ≤ len ∧ 1 ≤ leValue (bytesAt data 8 4) ∧ leValue (bytesAt data 8 4) ≤ 32767 ∧
    leValue (bytesAt data 8 4) ≤ len - 12 ∧ env.coinbaserLock = true

/-- A share response that is counted. -/
def IsShareResponse (len : Nat) (data : List UInt8) : Prop :=
  9 ≤ len ∧ (data.getD 0 0 = 0x66 ∨ data.getD 0 0 = 0x50 ∨ data.getD 0 0 = 0x55)

/-- The mining command takes effect, whoever sent it. -/
def MiningCommandActs (h : DatumHeader) (data : List UInt8) : Prop :=
  h.cmdLen ≠ 0 ∧
    (data.getD 0 0 = 0x11 ∧ IsCoinbaser env (h.cmdLen - 1) (data.drop 1) ∨
      data.getD 0 0 = 0x50 ∧ IsValidationRequest (h.cmdLen - 1) (data.drop 1) ∨
      data.getD 0 0 = 0x8f ∧ IsShareResponse (h.cmdLen - 1) (data.drop 1) ∨
      data.getD 0 0 = 0xf9 ∧ s.newNotifyThreadsafe = false)

variable {s}

theorem Untouched.refl (s : DatumClient) : s.Untouched s := ⟨rfl, rfl, rfl, rfl, rfl, rfl, rfl⟩

/-- The other buffer becomes the current one. -/
theorem untouched_coinbaserFetchResponse_iff (len : Nat) (data : List UInt8) :
    s.Untouched (s.coinbaserFetchResponse env len data).1 ↔ ¬ IsCoinbaser env len data := by
  rw [IsCoinbaser, coinbaserFetchResponse]
  by_cases hlen : len < 12
  · rw [if_pos hlen]
    exact iff_of_true (.refl s) fun h => absurd h.1 (Nat.not_le.mpr hlen)
  · rw [if_neg hlen]
    simp only
    split
    · next hsize =>
      refine iff_of_true (.refl s) ?_
      rintro ⟨-, hlow, hhigh, hfits, -⟩
      omega
    · next hsize =>
      cases hlock : env.coinbaserLock
      · refine iff_of_true (.refl s) ?_
        rintro ⟨-, -, -, -, hlocked⟩
        cases hlocked
      · refine iff_of_false ?_ fun hnot => hnot ⟨by omega, by omega, by omega, by omega, rfl⟩
        intro huntouched
        have hidx : (if s.coinbaser.bufIdx = 0 then 1 else 0) = s.coinbaser.bufIdx :=
          congrArg CoinbaserBuffers.bufIdx huntouched.coinbaser
        split at hidx
        · next hzero =>
          rw [hzero] at hidx
          exact absurd hidx (by decide)
        · next hone => exact hone hidx.symm

theorem untouched_validate_iff (len : Nat) (data : List UInt8) :
    s.Untouched (s.validate crypto env len data).1 ↔ ¬ IsValidationRequest len data := by
  rw [← isSome_jobValidationCmd s.jobs env.padding crypto.siphash s.siphashKey, validate]
  cases jobValidationCmd s.jobs env.padding crypto.siphash s.siphashKey len data with
  | none => exact iff_of_true (.refl s) nofun
  | some reply =>
    refine iff_of_false ?_ fun hnot => hnot rfl
    intro huntouched
    have hlen := congrArg List.length huntouched.replies
    rw [List.length_append, List.length_singleton] at hlen
    omega

theorem untouched_shareResponse_iff (len : Nat) (data : List UInt8) :
    s.Untouched (s.shareResponse len data).1 ↔ ¬ IsShareResponse len data := by
  have hsucc (count : UInt64) : count + 1 ≠ count := by
    intro heq
    simp at heq
  simp only [IsShareResponse, shareResponse]
  by_cases hlen : len < 9
  · rw [if_pos hlen]
    exact iff_of_true (.refl s) fun h => absurd h.1 (Nat.not_le.mpr hlen)
  · rw [if_neg hlen, and_iff_right (Nat.not_lt.mp hlen)]
    by_cases hrejected : data.getD 0 0 = 0x66
    · rw [if_pos hrejected]
      refine iff_of_false ?_ fun hnot => hnot (Or.inl hrejected)
      intro huntouched
      exact hsucc _ (congrArg ShareTallies.rejectedShareCount huntouched.tallies)
    · rw [if_neg hrejected]
      by_cases hunknown : data.getD 0 0 ≠ 0x50 ∧ data.getD 0 0 ≠ 0x55
      · rw [if_pos hunknown]
        refine iff_of_true (.refl s) ?_
        rintro (h | h | h)
        · exact hrejected h
        · exact hunknown.1 h
        · exact hunknown.2 h
      · rw [if_neg hunknown]
        refine iff_of_false ?_ ?_
        · intro huntouched
          exact hsucc _ (congrArg ShareTallies.acceptedShareCount huntouched.tallies)
        · intro hnot
          apply hunknown
          exact ⟨fun h => hnot (Or.inr (Or.inl h)), fun h => hnot (Or.inr (Or.inr h))⟩

/-- The switch over the mining commands, for a message that is not signed. -/
theorem untouched_miningCmd5_iff {h : DatumHeader} {data : List UInt8}
    (hsigned : h.isSigned = false) :
    s.Untouched (s.miningCmd5 crypto env h data).1 ↔ ¬ MiningCommandActs env s h data := by
  simp only [miningCmd5, MiningCommandActs, hsigned, Bool.not_false, if_true]
  by_cases hempty : h.cmdLen = 0
  · rw [if_pos hempty]
    exact iff_of_true (.refl s) fun hacts => hacts.1 hempty
  · rw [if_neg hempty]
    generalize data.getD 0 0 = command
    by_cases hconfig : command = 0x99
    · subst hconfig
      rw [if_pos rfl]
      refine iff_of_true (.refl s) ?_
      rintro ⟨-, h | h | h | h⟩ <;> exact absurd h.1 (by decide)
    rw [if_neg hconfig]
    by_cases hcoinbaser : command = 0x11
    · subst hcoinbaser
      rw [if_pos rfl, untouched_coinbaserFetchResponse_iff]
      simp [hempty]
    rw [if_neg hcoinbaser]
    by_cases hvalidation : command = 0x50
    · subst hvalidation
      rw [if_pos rfl, untouched_validate_iff]
      simp [hempty]
    rw [if_neg hvalidation]
    by_cases hshare : command = 0x8f
    · subst hshare
      rw [if_pos rfl, untouched_shareResponse_iff]
      simp [hempty]
    rw [if_neg hshare]
    by_cases hnotify : command = 0xf9
    · subst hnotify
      rw [if_pos rfl]
      cases hknown : s.newNotifyThreadsafe
      · refine iff_of_false ?_ ?_
        · intro huntouched
          exact Bool.noConfusion (huntouched.newNotifyThreadsafe.trans hknown)
        · simp [hempty]
      · refine iff_of_true ⟨rfl, rfl, rfl, rfl, rfl, hknown.symm, rfl⟩ ?_
        simp
    · rw [if_neg hnotify]
      refine iff_of_true (.refl s) ?_
      rintro ⟨-, h | h | h | h⟩
      · exact hcoinbaser h.1
      · exact hvalidation h.1
      · exact hshare h.1
      · exact hnotify h.1

/-- The switch over the protocol commands. -/
theorem untouched_protoCmd_iff {h : DatumHeader} {data : List UInt8}
    (hsigned : h.isSigned = false) :
    s.Untouched (s.protoCmd crypto env h data).1 ↔
      ¬ (h.protoCmd = 5 ∧ MiningCommandActs env s h data) := by
  have hlater (s' : DatumClient) :
      Untouched { s with latestServerMsgTsms := s.mainloopTsms } s' ↔ s.Untouched s' :=
    ⟨fun ⟨h₁, h₂, h₃, h₄, h₅, h₆, h₇⟩ =>
      ⟨h₁, h₂, h₃, h₄, h₅, h₆, h₇⟩,
      fun ⟨h₁, h₂, h₃, h₄, h₅, h₆, h₇⟩ =>
        ⟨h₁, h₂, h₃, h₄, h₅, h₆, h₇⟩⟩
  have hacts : MiningCommandActs env { s with latestServerMsgTsms := s.mainloopTsms } h data ↔
      MiningCommandActs env s h data := Iff.rfl
  rw [← hlater, ← hacts, protoCmd]
  generalize ({ s with latestServerMsgTsms := s.mainloopTsms } : DatumClient) = later
  by_cases hhandshake : h.protoCmd = 2
  · rw [if_pos hhandshake, handshakeResponse, hsigned, Bool.not_false, if_pos rfl, hhandshake]
    exact iff_of_true (.refl later) fun hfive => absurd hfive.1 (by decide)
  · rw [if_neg hhandshake]
    by_cases hmining : h.protoCmd = 5
    · rw [if_pos hmining, untouched_miningCmd5_iff crypto env hsigned, and_iff_right hmining]
    · rw [if_neg hmining]
      exact iff_of_true (.refl later) fun hfive => hmining hfive.1

theorem untouched_checkSignature_iff {h : DatumHeader} {data : List UInt8}
    (hmsg : h.isSigned = true → s.signatureVerifies crypto h data = false) :
    s.Untouched (s.checkSignature crypto env h data).1 ↔
      (h.isSigned = true ∨ ¬ (h.protoCmd = 5 ∧ MiningCommandActs env s h data)) := by
  rw [checkSignature]
  cases hsigned : h.isSigned
  · rw [if_neg Bool.false_ne_true, untouched_protoCmd_iff crypto env hsigned]
    exact ⟨Or.inr, fun h => h.resolve_left Bool.false_ne_true⟩
  · rw [if_pos rfl, hmsg hsigned, if_neg Bool.false_ne_true]
    exact iff_of_true (.refl s) (Or.inl rfl)

/-- A message nobody has vouched for leaves everything as it was, unless it claims
    neither a signature nor exactly one of the two encryptions and is a mining command
    that takes effect. -/
theorem untouched_serverMsg_iff {h : DatumHeader} {data : List UInt8}
    (hmsg : Unauthentic crypto s h data) :
    s.Untouched (s.serverMsg crypto env h data).1 ↔
      (h.isSigned = true ∨ h.isEncryptedPubkey ≠ h.isEncryptedChannel ∨
        ¬ (h.protoCmd = 5 ∧ MiningCommandActs env s h data)) := by
  have hplain : s.Untouched (s.checkSignature crypto env h data).1 ↔
      (h.isSigned = true ∨ ¬ (h.protoCmd = 5 ∧ MiningCommandActs env s h data)) :=
    untouched_checkSignature_iff crypto env hmsg.not_signed
  simp only [serverMsg]
  cases hpubkey : h.isEncryptedPubkey <;> cases hchannel : h.isEncryptedChannel
  · -- neither flag
    simpa using hplain
  · -- encrypted for the session, and not opened
    simp only [hmsg.not_encrypted hpubkey hchannel]
    exact iff_of_true (.refl s) (Or.inr (Or.inl Bool.false_ne_true))
  · -- sealed, and not opened
    simp only [hmsg.not_sealed hpubkey hchannel]
    exact iff_of_true (.refl s) (Or.inr (Or.inl Bool.false_ne_true.symm))
  · -- both flags: nothing is opened
    simpa using hplain

end Commands

/-! ## Two messages -/

/-- Functions that accept nothing. -/
def closedCrypto : DatumCrypto where
  sealOpen _ _ _ := none
  openEasyAfternm _ _ _ := none
  verifyDetached _ _ _ := false
  beforenm _ _ := []
  siphash _ _ := 0

def noKeys : EncKeys where
  isRemote := false
  pkEd25519 := List.replicate 32 0
  skEd25519 := []
  pkX25519 := List.replicate 32 0
  skX25519 := []

/-- A configured client. -/
def readyClient : DatumClient where
  localDatumKeys := noKeys
  poolKeys := noKeys
  keys :=
    { sessionDatumKeys := noKeys
      sessionRemoteDatumKeys := noKeys
      precompRemote := []
      sessionNonceReceiver := List.replicate 6 0 }
  coinbaser := { isSet := false, bufIdx := 0, buf := fun _ => [], value := fun _ => 0 }
  config :=
    { overrideMiningPoolScriptsig := []
      primeId := 0
      overrideMiningCoinbaseTagPrimary := []
      overrideVardiffMin := 1 }
  tallies :=
    { acceptedShareCount := 0
      acceptedShareDiff := 0
      rejectedShareCount := 0
      rejectedShareDiff := 0
      lastAcceptedShareTsms := 0 }
  datumState := 3
  newNotifyThreadsafe := false
  jobs := fun _ => .none
  mainloopTsms := 0
  latestServerMsgTsms := 0
  replies := []

def freeEnv : MsgEnv where
  padding := [0]
  coinbaserLock := true
  zeroDown := 0

/-- The header of a plain mining command of so many bytes. -/
def plainHeader (len : Nat) : DatumHeader := DatumHeader.ofNat (len + 2 ^ 27 * 5)

theorem plainHeader_unauthentic (len : Nat) (hlen : len < 2 ^ 22) (data : List UInt8) :
    Unauthentic closedCrypto readyClient (plainHeader len) data := by
  have hflags : (plainHeader len).isEncryptedPubkey = false ∧
      (plainHeader len).isEncryptedChannel = false ∧ (plainHeader len).isSigned = false := by
    simp only [plainHeader, DatumHeader.ofNat, decide_eq_false_iff_not]
    omega
  refine ⟨?_, ?_, ?_⟩
  · intro hpubkey
    exact absurd (hflags.1.symm.trans hpubkey) Bool.false_ne_true
  · intro _ hchannel
    exact absurd (hflags.2.1.symm.trans hchannel) Bool.false_ne_true
  · intro hsigned
    exact absurd (hflags.2.2.symm.trans hsigned) Bool.false_ne_true

/-- A plain client configuration is refused. -/
theorem plainConfiguration_untouched :
    readyClient.Untouched
      (readyClient.serverMsg closedCrypto freeEnv (plainHeader 2) [0x99, 1]).1 := by
  apply (untouched_serverMsg_iff closedCrypto freeEnv
    (plainHeader_unauthentic 2 (by decide) [0x99, 1])).mpr
  refine Or.inr (Or.inr ?_)
  rintro ⟨-, -, h | h | h | h⟩ <;> exact absurd h.1 (by decide)

/-- A plain coinbaser response is stored. -/
theorem plainCoinbaser_not_untouched :
    Unauthentic closedCrypto readyClient (plainHeader 14)
      (0x11 :: List.replicate 8 0 ++ [1, 0, 0, 0, 7]) ∧
    ¬ readyClient.Untouched (readyClient.serverMsg closedCrypto freeEnv (plainHeader 14)
      (0x11 :: List.replicate 8 0 ++ [1, 0, 0, 0, 7])).1 := by
  refine ⟨plainHeader_unauthentic 14 (by decide) _, fun huntouched => ?_⟩
  have hidx := congrArg CoinbaserBuffers.bufIdx huntouched.coinbaser
  exact absurd hidx (by decide +kernel)

end DatumClient

end ChirpGateway
