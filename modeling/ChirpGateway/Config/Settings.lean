import ChirpGateway.Address.OutputScript
import ChirpGateway.Config.Read

/-!
# Settings of a running gateway

`datum_api_config_set` (`datum_api.c:1196-1206`, `1232-1476`), which changes one setting of the
running configuration and of the document that is written to the file, with the strict readers
of numbers and flags it uses (`datum_utils.c:766-799`).
-/

namespace ChirpGateway

open Bytes Buffer

/-! ## Strict readers -/

/-- The loop of `datum_atoi_strict_u64`; all ones where it fails. -/
def atoiDigits : List UInt8 → (ret : Nat) → Nat
  | [], ret => ret
  | ch :: rest, ret =>
    if ch < 48 || ch > 57 then 2 ^ 64 - 1
    else
      let digit := ch.toNat - 48
      if ret > (2 ^ 64 - 1 - digit) / 10 then 2 ^ 64 - 1 else atoiDigits rest (ret * 10 + digit)

/-- `datum_atoi_strict_u64` -/
def datumAtoiStrictU64 (s : List UInt8) : Nat :=
  if s = [] then 2 ^ 64 - 1 else atoiDigits s 0

/-- `datum_atoi_strict` -/
def datumAtoiStrict (s : List UInt8) : Int :=
  let ret := datumAtoiStrictU64 s
  if ret = 2 ^ 64 - 1 || ret > 2 ^ 31 - 1 then -1 else ret

/-- `datum_str_to_bool_strict` -/
def datumStrToBoolStrict (s : List UInt8) : Option Bool :=
  if s = ascii "0" then some false else if s = ascii "1" then some true else none

/-! ## The document -/

/-- `json_object_del`, which does nothing to anything but an object. -/
def Json.objectDel : Json → String → Json
  | .object members, name => .object (members.filter fun entry => entry.1 ≠ name)
  | value, _ => value

/-- `datum_api_json_modify_new` -/
def datumApiJsonModifyNew (config : Json) (category key : String) (val : Json) : Json :=
  let j := (config.objectGet category).getD (.object [])
  config.objectSet category (j.objectSet key val)

/-! ## One setting -/

/-- The configuration while settings are made: the running one, the document, and the
    status (`struct datum_api_config_set_status`). -/
structure SettingState where
  cfg : GlobalConfig
  configJson : Json
  errors : List (List UInt8)
  modifiedConfig : Bool
  needRestart : Bool

namespace SettingState

/-- Nothing is to be done. -/
def unchanged (s : SettingState) : Option (SettingState × Bool) := some (s, true)

/-- An error is added. -/
def refused (s : SettingState) (error : List UInt8) : Option (SettingState × Bool) :=
  some ({ s with errors := s.errors ++ [error] }, false)

/-- The configuration and the document are changed. -/
def changed (s : SettingState) (cfg : GlobalConfig) (configJson : Json) (restart : Bool) :
    Option (SettingState × Bool) :=
  some ({ s with
    cfg := cfg
    configJson := configJson
    modifiedConfig := true
    needRestart := s.needRestart || restart }, true)

end SettingState

/-- `strcpy` to a field, which must not be shorter. -/
def GlobalConfig.strcpy (cfg : GlobalConfig) (field : StringField) (val : List UInt8) :
    Option GlobalConfig :=
  if val.length < field.size then some (cfg.setString field val) else none

/-- A setting that is on or off. -/
def setBoolOption (field : BoolField) (category key : String) (error : List UInt8)
    (val : List UInt8) (s : SettingState) : Option (SettingState × Bool) :=
  match datumStrToBoolStrict val with
  | none => s.refused error
  | some valBool =>
    if valBool = s.cfg.bool field then s.unchanged
    else
      s.changed (s.cfg.setBool field valBool)
        (datumApiJsonModifyNew s.configJson category key (.bool valBool)) false

/-- A setting that is a number from `low` to `high`. -/
def setIntOption (field : IntField) (category key : String) (low high : Int) (error : List UInt8)
    (restart : Bool) (val : List UInt8) (s : SettingState) : Option (SettingState × Bool) :=
  let valInt := datumAtoiStrict val
  if valInt = s.cfg.int field then s.unchanged
  else if valInt > high || valInt < low then s.refused error
  else
    s.changed (s.cfg.setInt field valInt)
      (datumApiJsonModifyNew s.configJson category key (.integer valInt)) restart

/-- A setting that is a text of at most `limit` characters. -/
def setStringOption (field : StringField) (category key : String) (limit : Nat)
    (error : List UInt8) (restart : Bool) (val : List UInt8) (s : SettingState) :
    Option (SettingState × Bool) :=
  if val = s.cfg.string field then s.unchanged
  else if val.length > limit then s.refused error
  else
    (s.cfg.strcpy field val).bind fun cfg =>
      s.changed cfg (datumApiJsonModifyNew s.configJson category key (.string val)) restart

def setMiningPoolAddress (sha256 : List UInt8 → List UInt8) (val : List UInt8)
    (s : SettingState) : Option (SettingState × Bool) :=
  if val = s.cfg.string .miningPoolAddress then s.unchanged
  else if (addr2OutputScript sha256 val).isNone then s.refused (ascii "Invalid Bitcoin Address")
  else
    (s.cfg.strcpy .miningPoolAddress val).bind fun cfg =>
      s.changed cfg (datumApiJsonModifyNew s.configJson "mining" "pool_address" (.string val)) false

/-- What `username_behaviour` writes to the document. -/
def usernameBehaviourJson (cfg : GlobalConfig) (configJson : Json) : Json :=
  let configJson := datumApiJsonModifyNew configJson "datum" "pool_pass_full_users"
    (.bool (cfg.bool .datumPoolPassFullUsers))
  if cfg.bool .datumPoolPassFullUsers then configJson
  else
    datumApiJsonModifyNew configJson "datum" "pool_pass_workers"
      (.bool (cfg.bool .datumPoolPassWorkers))

def setUsernameBehaviour (val : List UInt8) (s : SettingState) : Option (SettingState × Bool) :=
  let fullUsers := s.cfg.bool .datumPoolPassFullUsers
  let workers := s.cfg.bool .datumPoolPassWorkers
  let change (cfg : GlobalConfig) := s.changed cfg (usernameBehaviourJson cfg s.configJson) false
  if val = ascii "datum_pool_pass_full_users" then
    if fullUsers then s.unchanged else change (s.cfg.setBool .datumPoolPassFullUsers true)
  else if val = ascii "datum_pool_pass_workers" then
    if workers && !fullUsers then s.unchanged
    else
      change ((s.cfg.setBool .datumPoolPassFullUsers false).setBool .datumPoolPassWorkers true)
  else if val = ascii "private" then
    if !(workers || fullUsers) then s.unchanged
    else
      change ((s.cfg.setBool .datumPoolPassFullUsers false).setBool .datumPoolPassWorkers false)
  else s.refused (ascii "Invalid option for \"Send Miner Usernames To Pool\"")

/-- The room that the primary tag leaves. -/
def secondaryTagLimit (cfg : GlobalConfig) : Nat :=
  let lenLimit := (88 + (2 ^ 64 - (cfg.string .miningCoinbaseTagPrimary).length)) % 2 ^ 64
  if lenLimit > 60 then 60 else lenLimit

/-- A member of the document's `datum` section. -/
def datumMember (config : Json) (name : String) : Option Json :=
  (config.objectGet "datum").bind fun j => if j.isObject then j.objectGet name else none

/-- The pool's host once it is wanted again: the one put away, or else the default. Deleting
    `pool_host(old)` is tried on its value, which has no members. -/
def wantDatumPoolHost (cfg : GlobalConfig) (config : Json) : Option (GlobalConfig × Json) :=
  let useDefault : Option (GlobalConfig × Json) :=
    (cfg.strcpy .datumPoolHost StringField.datumPoolHost.item.default).map fun cfg =>
      (cfg, match config.objectGet "datum" with
        | some j => config.objectSet "datum" (j.objectDel "pool_host")
        | none => config)
  if cfg.string .datumPoolHost ≠ [] then some (cfg, config)
  else
    match datumMember config "pool_host(old)" with
    | some (.string text) =>
      if text.length ≤ 1023 then
        (cfg.strcpy .datumPoolHost (cString text)).map fun cfg =>
          (cfg, datumApiJsonModifyNew config "datum" "pool_host"
            (.string (cfg.string .datumPoolHost)))
      else useDefault
    | _ => useDefault

def setRewardSharing (val : List UInt8) (s : SettingState) : Option (SettingState × Bool) :=
  let poolHost := s.cfg.string .datumPoolHost
  let pooledOnly := s.cfg.bool .datumPooledMiningOnly
  let change (done : GlobalConfig × Json) :=
    s.changed done.1 (datumApiJsonModifyNew done.2 "datum" "pooled_mining_only"
      (.bool (done.1.bool .datumPooledMiningOnly))) true
  if val = ascii "require" then
    if poolHost ≠ [] && pooledOnly then s.unchanged
    else (wantDatumPoolHost (s.cfg.setBool .datumPooledMiningOnly true) s.configJson).bind change
  else if val = ascii "prefer" then
    if poolHost ≠ [] && !pooledOnly then s.unchanged
    else (wantDatumPoolHost (s.cfg.setBool .datumPooledMiningOnly false) s.configJson).bind change
  else if val = ascii "never" then
    if !(poolHost ≠ [] || pooledOnly) then s.unchanged
    else
      let config :=
        match datumMember s.configJson "pool_host" with
        | some j => datumApiJsonModifyNew s.configJson "datum" "pool_host(old)" j
        | none => s.configJson
      change ((s.cfg.setBool .datumPooledMiningOnly false).setString .datumPoolHost [],
        datumApiJsonModifyNew config "datum" "pool_host" (.string []))
  else s.refused (ascii "Invalid option for \"Collaborative reward sharing\"")

/-- While no pool is used, its host is put away for later. -/
def setDatumPoolHost (val : List UInt8) (s : SettingState) : Option (SettingState × Bool) :=
  if val = s.cfg.string .datumPoolHost then s.unchanged
  else if val.length > 1023 then s.refused (ascii "Pool Host is too long")
  else if s.cfg.string .datumPoolHost ≠ [] then
    (s.cfg.strcpy .datumPoolHost val).bind fun cfg =>
      s.changed cfg (datumApiJsonModifyNew s.configJson "datum" "pool_host" (.string val)) true
  else
    let putAway :=
      match datumMember s.configJson "pool_host(old)" with
      | some (.string _) => true
      | _ => false
    if val ≠ StringField.datumPoolHost.item.default || putAway then
      s.changed s.cfg (datumApiJsonModifyNew s.configJson "datum" "pool_host(old)" (.string val))
        false
    else s.changed s.cfg s.configJson false

def setMiningPowAlgorithm (val : List UInt8) (s : SettingState) : Option (SettingState × Bool) :=
  if val ≠ ascii "auto" && val ≠ ascii "blake2b" && val ≠ ascii "sha256d" then
    s.refused (ascii "PoW algorithm must be auto, blake2b, or sha256d")
  else if val = s.cfg.string .miningPowAlgorithm then s.unchanged
  else
    (s.cfg.strcpy .miningPowAlgorithm val).bind fun cfg =>
      s.changed cfg (datumApiJsonModifyNew s.configJson "mining" "pow_algorithm" (.string val)) true

/-- The timeout of the pool's protocol follows the time between updates of the work. -/
def setWorkUpdateSeconds (val : List UInt8) (s : SettingState) : Option (SettingState × Bool) :=
  let valInt := datumAtoiStrict val
  if valInt = s.cfg.int .bitcoindWorkUpdateSeconds then s.unchanged
  else if valInt > 120 || valInt < 5 then
    s.refused (ascii "bitcoind work update interval must be between 5 and 120")
  else
    let cfg := s.cfg.setInt .bitcoindWorkUpdateSeconds valInt
    let config := datumApiJsonModifyNew s.configJson "bitcoind" "work_update_seconds"
      (.integer valInt)
    if cfg.int .bitcoindWorkUpdateSeconds ≥ cfg.int .datumProtocolGlobalTimeout - 5 then
      s.changed (cfg.setInt .datumProtocolGlobalTimeout (valInt + 5))
        (datumApiJsonModifyNew config "datum" "protocol_global_timeout" (.integer (valInt + 5)))
          true
    else s.changed cfg config true

/-- `datum_api_config_set`, but for the user and password that the calls of the node are put
    together from. `none` is a write behind the end of a field. -/
def datumApiConfigSet (sha256 : List UInt8 → List UInt8) (key val : List UInt8)
    (s : SettingState) : Option (SettingState × Bool) :=
  if key = ascii "mining_pool_address" then setMiningPoolAddress sha256 val s
  else if key = ascii "username_behaviour" then setUsernameBehaviour val s
  else if key = ascii "mining_coinbase_tag_secondary" then
    setStringOption .miningCoinbaseTagSecondary "mining" "coinbase_tag_secondary"
      (secondaryTagLimit s.cfg) (ascii "Coinbase Tag is too long") false val s
  else if key = ascii "mining_coinbase_unique_id" then
    setIntOption .coinbaseUniqueId "mining" "coinbase_unique_id" 0 65535
      (ascii "Unique Gateway ID must be between 0 and 65535") false val s
  else if key = ascii "reward_sharing" then setRewardSharing val s
  else if key = ascii "datum_pool_host" then setDatumPoolHost val s
  else if key = ascii "datum_pool_port" then
    setIntOption .datumPoolPort "datum" "pool_port" 1 65535
      (ascii "Pool Port must be between 1 and 65535") true val s
  else if key = ascii "datum_pool_pubkey" then
    setStringOption .datumPoolPubkey "datum" "pool_pubkey" 1023
      (ascii "Pool Pubkey is too long") true val s
  else if key = ascii "stratum_fingerprint_miners" then
    setBoolOption .stratumV1FingerprintMiners "stratum" "fingerprint_miners"
      (ascii "\"Fingerprint and workaround known miner bugs\" must be 0 or 1") val s
  else if key = ascii "datum_always_pay_self" then
    setBoolOption .datumAlwaysPaySelf "datum" "always_pay_self"
      (ascii "\"Always pay self\" must be 0 or 1") val s
  else if key = ascii "mining_pow_algorithm" then setMiningPowAlgorithm val s
  else if key = ascii "mining_allow_hasher_time_rolling" then
    setBoolOption .miningAllowHasherTimeRolling "mining" "allow_hasher_time_rolling"
      (ascii "\"Allow hasher time rolling for BLAKE2b jobs\" must be 0 or 1") val s
  else if key = ascii "bitcoind_work_update_seconds" then setWorkUpdateSeconds val s
  else if key = ascii "bitcoind_rpcurl" then
    setStringOption .bitcoindRpcurl "bitcoind" "rpcurl" (StringField.bitcoindRpcurl.size - 1)
      (ascii "bitcoind RPC URL is too long") false val s
  else if key = ascii "bitcoind_rpcuser" then
    setStringOption .bitcoindRpcuser "bitcoind" "rpcuser" (StringField.bitcoindRpcuser.size - 1)
      (ascii "bitcoind RPC user is too long") false val s
  else if key = ascii "bitcoind_rpcpassword" then
    -- an empty password is no change
    if val = [] then s.unchanged
    else
      setStringOption .bitcoindRpcpassword "bitcoind" "rpcpassword"
        (StringField.bitcoindRpcpassword.size - 1) (ascii "bitcoind RPC password is too long") false
        val s
  else s.refused ((ascii "Unknown setting '" ++ key ++ ascii "'").take 255)

end ChirpGateway
