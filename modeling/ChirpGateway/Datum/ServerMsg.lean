import ChirpGateway.Datum.Header
import ChirpGateway.Datum.Send
import ChirpGateway.Datum.Validation
import ChirpGateway.Stratum.Vardiff

/-!
# Messages of the server

`datum_protocol_server_msg` and what it calls (`datum_protocol.c:277-320`,
`391-447` and `890-1281`). What the commands are encrypted, sealed and signed with
is the library's. A message may be shorter than the memory it stands in: `data` is
that memory, from the message on.
-/

namespace ChirpGateway

open Bytes Wire

/-- `DATUM_ENC_KEYS`. -/
structure EncKeys where
  isRemote : Bool
  pkEd25519 : List UInt8
  skEd25519 : List UInt8
  pkX25519 : List UInt8
  skX25519 : List UInt8
  deriving DecidableEq

/-- The functions of the library. -/
structure DatumCrypto where
  /-- `crypto_box_seal_open` -/
  sealOpen : (pk sk : List UInt8) → List UInt8 → Option (List UInt8)
  /-- `crypto_box_open_easy_afternm` -/
  openEasyAfternm : (precomp : List UInt8) → SessionNonce → List UInt8 → Option (List UInt8)
  /-- `crypto_sign_verify_detached` -/
  verifyDetached : (sig message pk : List UInt8) → Bool
  /-- `crypto_box_beforenm` -/
  beforenm : (pk sk : List UInt8) → List UInt8
  /-- `datum_siphash_mod8` -/
  siphash : List UInt8 → List UInt8 → UInt64

/-- The two buffers for coinbaser responses. -/
structure CoinbaserBuffers where
  isSet : Bool
  bufIdx : Fin 2
  buf : Fin 2 → List UInt8
  value : Fin 2 → UInt64

/-- What the server may configure. -/
structure PoolConfig where
  overrideMiningPoolScriptsig : List UInt8
  primeId : UInt32
  overrideMiningCoinbaseTagPrimary : List UInt8
  overrideVardiffMin : UInt64
  deriving DecidableEq

/-- The shares the server has accepted and rejected. -/
structure ShareTallies where
  acceptedShareCount : UInt64
  acceptedShareDiff : UInt64
  rejectedShareCount : UInt64
  rejectedShareDiff : UInt64
  lastAcceptedShareTsms : UInt64
  deriving DecidableEq

/-- The keys and the nonce a session works with. -/
structure SessionKeys where
  sessionDatumKeys : EncKeys
  sessionRemoteDatumKeys : EncKeys
  precompRemote : List UInt8
  sessionNonceReceiver : SessionNonce
  deriving DecidableEq

/-- What the messages read and change. `replies` are the commands that were given to
    `datum_protocol_mining_cmd`. -/
structure DatumClient where
  localDatumKeys : EncKeys
  poolKeys : EncKeys
  keys : SessionKeys
  coinbaser : CoinbaserBuffers
  config : PoolConfig
  tallies : ShareTallies
  datumState : UInt8
  newNotifyThreadsafe : Bool
  jobs : Fin 8 → ValidationJob
  mainloopTsms : UInt64
  latestServerMsgTsms : UInt64
  replies : List (List UInt8)

/-- What else decides a call: the random padding of a reply, whether the lock of the
    coinbaser buffers was free within five seconds, and what `roundDownToPowerOfTwo_64` makes
    of zero, for which `__builtin_clzll` is undefined. -/
structure MsgEnv where
  padding : List UInt8
  coinbaserLock : Bool
  zeroDown : UInt64

def cryptoBoxSealbytes : Nat := 48
def cryptoSignBytes : Nat := 64

namespace DatumClient

variable (crypto : DatumCrypto) (env : MsgEnv) (s : DatumClient)

/-! ## Mining commands -/

/-- `datum_protocol_coinbaser_fetch_response`. -/
def coinbaserFetchResponse (len : Nat) (data : List UInt8) : DatumClient × Int :=
  if len < 12 then (s, 0)
  else
    let x := leValue (bytesAt data 8 4)
    if x > 32768 - 1 ∨ x < 1 ∨ x > len - 12 then (s, 0)
    else if !env.coinbaserLock then (s, 0)
    else
      let idx : Fin 2 := if s.coinbaser.bufIdx = 0 then 1 else 0
      ({ s with
          coinbaser :=
            { isSet := true
              bufIdx := idx
              buf := Function.update s.coinbaser.buf idx (bytesAt data 12 x)
              value := Function.update s.coinbaser.value idx
                (UInt64.ofNat (leValue (bytesAt data 0 8))) } }, 1)

/-- `datum_protocol_client_configure`. What is read before an error stays. -/
def clientConfigure (len : Nat) (data : List UInt8) : DatumClient × Int :=
  let scriptLen := (data.getD 1 0).toNat
  let tagAt := 2 + scriptLen + 4
  let tagLen := (data.getD tagAt 0).toNat
  let vardiffAt := tagAt + 1 + tagLen
  if 0 ≥ len ∨ data.getD 0 0 ≠ 1 then (s, 0)
  else if 1 ≥ len ∨ 2 + scriptLen > len then (s, 0)
  else
    let s := { s with config.overrideMiningPoolScriptsig := bytesAt data 2 scriptLen }
    if 2 + scriptLen + 4 > len then (s, 0)
    else
      let s := { s with
        config.primeId := UInt32.ofNat (leValue (bytesAt data (2 + scriptLen) 4)) }
      if tagAt ≥ len ∨ tagAt + 1 + tagLen > len then (s, 0)
      else
        let s := { s with
          config.overrideMiningCoinbaseTagPrimary := bytesAt data (tagAt + 1) tagLen }
        if vardiffAt + 8 > len then (s, 0)
        else
          let sent := UInt64.ofNat (leValue (bytesAt data vardiffAt 8))
          let down := if sent = 0 then env.zeroDown else roundDownToPowerOfTwo sent
          let s := { s with
            config.overrideVardiffMin := if sent ≠ down then down <<< 1 else sent }
          if vardiffAt + 8 + 2 > len then (s, 0)
          else if data.getD (vardiffAt + 8) 0 ≠ 0 ∨ data.getD (vardiffAt + 9) 0 ≠ 0xfe then
            (s, 0)
          else ({ s with datumState := 3 }, 1)

/-- `datum_protocol_add_share_diff`. -/
def addShareDiff (total : UInt64) (pot : UInt8) : UInt64 :=
  if pot ≥ 64 then 0xffffffffffffffff
  else if total.toNat + 2 ^ pot.toNat ≥ 2 ^ 64 then 0xffffffffffffffff
  else total + UInt64.ofNat (2 ^ pot.toNat)

/-- `datum_protocol_share_response`. -/
def shareResponse (len : Nat) (data : List UInt8) : DatumClient × Int :=
  let pot := data.getD 7 0
  let tallies := s.tallies
  if len < 9 then (s, 0)
  else if data.getD 0 0 = 0x66 then
    ({ s with
        tallies.rejectedShareCount := tallies.rejectedShareCount + 1
        tallies.rejectedShareDiff :=
          if pot ≠ 0xff then addShareDiff tallies.rejectedShareDiff pot
          else tallies.rejectedShareDiff + s.config.overrideVardiffMin }, 1)
  else if data.getD 0 0 ≠ 0x50 ∧ data.getD 0 0 ≠ 0x55 then (s, 1)
  else
    ({ s with
        tallies.acceptedShareCount := tallies.acceptedShareCount + 1
        tallies.acceptedShareDiff := addShareDiff tallies.acceptedShareDiff pot
        tallies.lastAcceptedShareTsms := s.mainloopTsms }, 1)

/-- The key of the short transaction IDs. -/
def siphashKey : List UInt8 :=
  (List.zipWith (fun a b => a ^^^ b ^^^ 0x55) s.localDatumKeys.pkEd25519
    s.poolKeys.pkEd25519).take 16

/-- `datum_protocol_job_validation_cmd`, with the reply it sends. -/
def validate (len : Nat) (data : List UInt8) : DatumClient × Int :=
  match jobValidationCmd s.jobs env.padding crypto.siphash s.siphashKey len data with
  | none => (s, if len < 2 then 0 else 1)
  | some reply => ({ s with replies := s.replies ++ [reply] }, 1)

/-- `datum_protocol_mining_cmd5`. -/
def miningCmd5 (h : DatumHeader) (data : List UInt8) : DatumClient × Int :=
  let len := h.cmdLen - 1
  if h.cmdLen = 0 then (s, 0)
  else if data.getD 0 0 = 0x99 then
    if !h.isSigned then (s, 0) else s.clientConfigure env len (data.drop 1)
  else if data.getD 0 0 = 0x11 then s.coinbaserFetchResponse env len (data.drop 1)
  else if data.getD 0 0 = 0x50 then s.validate crypto env len (data.drop 1)
  else if data.getD 0 0 = 0x8f then s.shareResponse len (data.drop 1)
  else if data.getD 0 0 = 0xf9 then ({ s with newNotifyThreadsafe := true }, 1)
  else (s, 0)

/-! ## Protocol commands -/

/-- `datum_protocol_handshake_response`. -/
def handshakeResponse (h : DatumHeader) (data : List UInt8) : DatumClient × Int :=
  if !h.isSigned then (s, -1)
  else if bytesAt data 0 32 ≠ s.localDatumKeys.pkEd25519 ∨
      bytesAt data 32 32 ≠ s.localDatumKeys.pkX25519 ∨
      bytesAt data 64 32 ≠ s.keys.sessionDatumKeys.pkEd25519 ∨
      bytesAt data 96 32 ≠ s.keys.sessionDatumKeys.pkX25519 then (s, -1)
  else
    ({ s with
        keys.sessionRemoteDatumKeys.pkEd25519 := bytesAt data 128 32
        keys.sessionRemoteDatumKeys.pkX25519 := bytesAt data 160 32
        keys.sessionRemoteDatumKeys.isRemote := true
        keys.precompRemote :=
          crypto.beforenm (bytesAt data 160 32) s.keys.sessionDatumKeys.skX25519
        datumState := 2 }, 1)

/-- The switch over the protocol commands. -/
def protoCmd (h : DatumHeader) (data : List UInt8) : DatumClient × Int :=
  let s := { s with latestServerMsgTsms := s.mainloopTsms }
  if h.protoCmd = 2 then s.handshakeResponse crypto h data
  else if h.protoCmd = 5 then s.miningCmd5 crypto env h data
  else (s, 1)

/-- A header for a message without so many of its last bytes. -/
def shortened (h : DatumHeader) (size : Nat) : DatumHeader :=
  { h with
    cmdLen := h.cmdLen - size
    cmdLen_lt := Nat.lt_of_le_of_lt (Nat.sub_le _ _) h.cmdLen_lt }

/-- The key signatures are checked with. -/
def signingKey : List UInt8 :=
  if s.datumState ≥ 2 then s.keys.sessionRemoteDatumKeys.pkEd25519 else s.poolKeys.pkEd25519

/-- The signature behind the message verifies. -/
def signatureVerifies (h : DatumHeader) (data : List UInt8) : Bool :=
  cryptoSignBytes ≤ h.cmdLen &&
    crypto.verifyDetached (bytesAt data (h.cmdLen - cryptoSignBytes) cryptoSignBytes)
      (bytesAt data 0 (h.cmdLen - cryptoSignBytes)) s.signingKey

/-- The check of the signature and what follows. -/
def checkSignature (h : DatumHeader) (data : List UInt8) : DatumClient × Int :=
  if h.isSigned then
    if s.signatureVerifies crypto h data then
      s.protoCmd crypto env (shortened h cryptoSignBytes) data
    else
      (s, -1)
  else
    s.protoCmd crypto env h data

/-- What `datum_protocol_decrypt_sealed` opens. -/
def openSealed (h : DatumHeader) (data : List UInt8) : Option (List UInt8) :=
  if h.cmdLen < cryptoBoxSealbytes then none
  else
    crypto.sealOpen s.keys.sessionDatumKeys.pkX25519 s.keys.sessionDatumKeys.skX25519
      (bytesAt data 0 h.cmdLen)

/-- What `datum_protocol_decrypt_standard` opens. -/
def openStandard (h : DatumHeader) (data : List UInt8) : Option (List UInt8) :=
  if h.cmdLen < cryptoBoxMacbytes then none
  else
    crypto.openEasyAfternm s.keys.precompRemote s.keys.sessionNonceReceiver
      (bytesAt data 0 h.cmdLen)

/-- The plain text in the place of the message. -/
def inPlace (plain data : List UInt8) : List UInt8 := plain ++ data.drop plain.length

/-- `datum_protocol_server_msg`. -/
def serverMsg (h : DatumHeader) (data : List UInt8) : DatumClient × Int :=
  if h.isEncryptedPubkey ∧ !h.isEncryptedChannel then
    match s.openSealed crypto h data with
    | none => (s, -1)
    | some plain =>
      s.checkSignature crypto env (shortened h cryptoBoxSealbytes) (inPlace plain data)
  else if !h.isEncryptedPubkey ∧ h.isEncryptedChannel then
    match s.openStandard crypto h data with
    | none => (s, -1)
    | some plain =>
      { s with
        keys.sessionNonceReceiver := incrementSessionNonce s.keys.sessionNonceReceiver
      }.checkSignature crypto env (shortened h cryptoBoxMacbytes) (inPlace plain data)
  else
    s.checkSignature crypto env h data

end DatumClient

end ChirpGateway
