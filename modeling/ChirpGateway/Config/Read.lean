import ChirpGateway.Config.Options
import ChirpGateway.Lib.Slots
import ChirpGateway.Stratum.Vardiff

/-!
# Reading the configuration file

`datum_config_set_default`, `datum_config_parse_value` and `datum_read_config`
(`datum_conf.c:262-294`, `395-461` and `468-685`), and which files are accepted: those in which
every option can be read and whose values, after the adjustments that are made, are admitted.
-/

namespace ChirpGateway

open Bytes Buffer

/-- `datum_config_set_default`: what the field holds after it. -/
def datumConfigSetDefault : (ptr : ConfigPtr) → ptr.Value → ptr.Value
  | .int field, _ => field.item.default
  | .bool field, _ => field.item.default
  | .string field, _ => (cString field.item.default).take (field.size - 1)
  | .extraBlockSubmissionsUrls, _ => ([] : List (List UInt8))
  | .stratumUsernameMod, old =>
    let old : ModsState := old
    ({ old.free with umods := none } : ModsState)

/-- How `datum_config_parse_value` fails. -/
inductive ParseStop where
  | code (j : Int)
  | aborted
  | assertFailed

/-- `DATUM_CONFIG_MAX_ARRAY_ENTRIES` -/
def datumConfigMaxArrayEntries : Nat := 32

/-- `DATUM_MAX_SUBMIT_URL_LEN` -/
def datumMaxSubmitUrlLen : Nat := 512

/-- The loop over an array of strings, from the index `i` on. -/
def parseStringArray : List Json → (i : Nat) → Except ParseStop (List (List UInt8))
  | [], _ => .ok []
  | .string text :: rest, i =>
    if i ≥ datumConfigMaxArrayEntries - 1 then .error (.code (-3))
    else if text.length = 0 then .error (.code (-4))
    else if text.length > datumMaxSubmitUrlLen - 1 then .error (.code (-2))
    else
      match parseStringArray rest (i + 1) with
      | .ok urls => .ok (text :: urls)
      | .error stop => .error stop
  | _ :: _, _ => .error (.code (-1))

section

variable {α : Type} (arith : ShareArith α) (malloc : Nat → Option Nat)

/-- `datum_config_parse_value`: what the field holds after it. Strings of a file have no
    terminator in them. -/
def datumConfigParseValue : (ptr : ConfigPtr) → ptr.Value → Json → Except ParseStop ptr.Value
  | .int _, _, .null => .ok (0 : Int)
  | .int _, _, .integer value =>
    if value > 2 ^ 31 - 1 ∨ value < -2 ^ 31 then .error (.code (-1)) else .ok (value : Int)
  | .int _, _, _ => .error (.code (-1))
  | .bool _, _, .null => .ok false
  | .bool _, _, .bool value => .ok (value : Bool)
  | .bool _, _, _ => .error (.code (-1))
  | .string _, _, .null => .ok ([] : List UInt8)
  | .string field, _, .string text =>
    if (cString text).length ≥ field.size then .error (.code (-2))
    else .ok (cString text : List UInt8)
  | .string _, _, _ => .error (.code (-1))
  | .extraBlockSubmissionsUrls, _, .array elements => parseStringArray elements 0
  | .extraBlockSubmissionsUrls, _, _ => .error (.code (-1))
  | .stratumUsernameMod, old, item =>
    match datumConfigParseUsernameMods arith malloc old item with
    | .parsed s => .ok (s : ModsState)
    | .refused _ => .error (.code (-1))
    | .aborted => .error .aborted
    | .assertFailed => .error .assertFailed

/-- `datum_conf_var_type_text` -/
def ConfigPtr.varTypeText : ConfigPtr → String
  | .bool _ => "boolean"
  | .int _ => "integer"
  | .string _ => "string"
  | .extraBlockSubmissionsUrls => "string_array"
  | .stratumUsernameMod => "\x7b\"modname\":\x7b\"address\":proportion,...\x7d,...\x7d"

/-- `max_string_len` -/
def ConfigPtr.maxStringLen : ConfigPtr → Nat
  | .string field => field.size
  | .extraBlockSubmissionsUrls => datumMaxSubmitUrlLen
  | _ => 0

/-- How reading a configuration ends without one: what is returned and the error that is
    logged, or what the code does not come back from. -/
inductive ReadStop where
  | returned (code : Int) (text : String)
  | aborted
  | assertFailed
  | undefined

/-- `datum_config_opt_missing_error` -/
def datumConfigOptMissingError (ptr : ConfigPtr) : String :=
  "Required configuration option (" ++ ptr.category ++ "." ++ ptr.name ++
    ") not found in config file:"

/-- The error for a value that could not be parsed. -/
def parseErrorText (ptr : ConfigPtr) (j : Int) : String :=
  if j = -1 then
    "Could not parse configuration option " ++ ptr.category ++ "." ++ ptr.name ++
      ".  Type should be " ++ ptr.varTypeText
  else
    "Configuration option " ++ ptr.category ++ "." ++ ptr.name ++
      if j = -2 then " exceeds maximum length of " ++ toString (ptr.maxStringLen - 1)
      else if j = -3 then
        " exceeds maximum list size of " ++ toString (datumConfigMaxArrayEntries - 1)
      else " cannot include empty strings"

/-- The item of an option in the file. -/
def givenItem (config : Json) (ptr : ConfigPtr) : Option Json :=
  match config.objectGet ptr.category with
  | some cat => if cat.isObject then cat.objectGet ptr.name else none
  | none => none

/-- One turn of the loop over the options. -/
def readOption (config : Json) (ptr : ConfigPtr) (old : ptr.Value) : Except ReadStop ptr.Value :=
  let item := (givenItem config ptr).getD .null
  if item.isNull then
    if ptr.required then .error (.returned 0 (datumConfigOptMissingError ptr))
    else .ok (datumConfigSetDefault ptr old)
  else
    match datumConfigParseValue arith malloc ptr old item with
    | .ok value => .ok value
    | .error (.code j) => .error (.returned (-1) (parseErrorText ptr j))
    | .error .aborted => .error .aborted
    | .error .assertFailed => .error .assertFailed

/-! ## What is asked of the values -/

/-- A value that is refused. -/
def refuse (bad : Bool) (text : String) : Except ReadStop Unit :=
  if bad then .error (.returned 0 text) else .ok ()

/-- The result of arithmetic on `int`, which must not overflow. -/
def intResult (value : Int) : Except ReadStop Int :=
  if value > 2 ^ 31 - 1 ∨ value < -2 ^ 31 then .error .undefined else .ok value

/-- `stratum.vardiff_min` as a power of two; of zero there is none. -/
def adjustVardiffMin (cfg : GlobalConfig) : Except ReadStop GlobalConfig :=
  let vardiffMin := UInt64.ofInt (cfg.int .stratumV1VardiffMin)
  if vardiffMin = 0 then .error .undefined
  else
    let nv := roundDownToPowerOfTwo vardiffMin
    if nv ≠ vardiffMin then
      .ok (cfg.setInt .stratumV1VardiffMin ((nv.toNat : Int).bmod (2 ^ 32)))
    else .ok cfg

def templateBpsError (supplierBps poolBps : Int) : String :=
  "mining.template_supplier_bps (" ++ toString supplierBps ++ ") + mining.template_pool_bps (" ++
    toString poolBps ++ ") must be in [0, 10000) — the finder must keep a positive share."

def chirpBpsError (feeBps supplierBps : Int) : String :=
  "mining.chirp_fee_bps (" ++ toString feeBps ++ ") + mining.template_supplier_bps (" ++
    toString supplierBps ++ ") must be in [0, 10000) — the syndicate must keep a positive share."

/-- `bitcoind.work_update_seconds` from 5 to 120. -/
def clampWorkUpdate (cfg : GlobalConfig) : GlobalConfig :=
  let cfg := if cfg.int .bitcoindWorkUpdateSeconds < 5 then
    cfg.setInt .bitcoindWorkUpdateSeconds 5 else cfg
  if cfg.int .bitcoindWorkUpdateSeconds > 120 then
    cfg.setInt .bitcoindWorkUpdateSeconds 120 else cfg

/-- The node is called with a user and a password, or with a cookie. -/
def checkCredentials (cfg : GlobalConfig) : Except ReadStop Unit :=
  if cfg.string .bitcoindRpcuser ≠ [] then
    refuse (cfg.string .bitcoindRpcpassword = [])
      (datumConfigOptMissingError (.string .bitcoindRpcpassword))
  else
    refuse (cfg.string .bitcoindRpccookiefile = [])
      "Either bitcoind.rpcuser (and bitcoind.rpcpassword) or bitcoind.rpccookiefile is required."

/-- `mining.template_fast_recycle_ms`, at least 100 where it is on. -/
def clampFastRecycle (cfg : GlobalConfig) : GlobalConfig :=
  let recycle := cfg.int .miningTemplateFastRecycleMs
  if recycle > 0 && recycle < 100 then cfg.setInt .miningTemplateFastRecycleMs 100 else cfg

/-- `datum_read_config` behind its loop. -/
def checkConfig (cfg : GlobalConfig) : Except ReadStop GlobalConfig := do
  let cfg := clampWorkUpdate cfg
  checkCredentials cfg
  refuse (cfg.int .stratumV1MaxThreads > 64) "Maximum threads must be less than 64."
  refuse (cfg.int .stratumV1MaxClientsPerThread > 4096)
    "Maximum clients per thread must be less than 4096."
  let primary := (cfg.string .miningCoinbaseTagPrimary).length
  let secondary := (cfg.string .miningCoinbaseTagSecondary).length
  refuse (primary + secondary > 88) "Length of coinbase tags can not exceed 88 bytes total."
  refuse (primary > 60 || secondary > 60)
    "Length of coinbase tags can not exceed 88 bytes total or 60 bytes each."
  refuse (cfg.int .stratumV1VardiffTargetSharesMin < 1)
    "Stratum server stratum.vardiff_target_shares_min must be at least 1"
  refuse (cfg.int .stratumV1VardiffQuickdiffCount < 4)
    "Stratum server stratum.vardiff_quickdiff_count must be at least 4"
  refuse (cfg.int .stratumV1VardiffQuickdiffDelta < 3)
    "Stratum server stratum.vardiff_quickdiff_delta must be at least 3"
  let cfg ← adjustVardiffMin cfg
  refuse (cfg.int .stratumV1VardiffMin < 1)
    ("Stratum server stratum.vardiff_min must be at least 1 " ++
      "(suggest at least 1024, but more likely 32768)")
  let places ← intResult (cfg.int .stratumV1MaxClientsPerThread * cfg.int .stratumV1MaxThreads)
  refuse (cfg.int .stratumV1MaxClients > places)
    "Stratum server configuration error. Max clients too high for thread settings"
  refuse (cfg.int .stratumV1ShareStaleSeconds < 60)
    "Stratum server stratum.share_stale_seconds must be at least 60 (suggest 120)"
  refuse (cfg.int .stratumV1ShareStaleSeconds > 150)
    "Stratum server stratum.share_stale_seconds must not exceed 150 (suggest 120)"
  refuse (cfg.int .datumProtocolGlobalTimeout < cfg.int .bitcoindWorkUpdateSeconds + 5)
    "DATUM protocol global timeout must be at least the work update interval plus 5 seconds."
  refuse (cfg.string .datumPoolHost = [] && cfg.bool .datumPooledMiningOnly)
    "Pooled mining only is set to true, but pool host is not specified."
  let supplierBps := cfg.int .miningTemplateSupplierBps
  let poolBps := cfg.int .miningTemplatePoolBps
  let feeBps := cfg.int .miningChirpFeeBps
  refuse (supplierBps < 0 || poolBps < 0) (templateBpsError supplierBps poolBps)
  let taken ← intResult (supplierBps + poolBps)
  refuse (taken ≥ 10000) (templateBpsError supplierBps poolBps)
  refuse (feeBps < 0) (chirpBpsError feeBps supplierBps)
  let taken ← intResult (feeBps + supplierBps)
  refuse (taken ≥ 10000) (chirpBpsError feeBps supplierBps)
  let cfg := clampFastRecycle cfg
  refuse (cfg.bool .miningBlake2bChirp && cfg.bool .miningBlake2bPersonalLotto)
    ("mining.blake2b_chirp and mining.blake2b_personal_lotto are mutually exclusive " ++
      "(shared coinbase vs per-miner coinbase).")
  let _ ← intResult (cfg.int .datumProtocolGlobalTimeout * 1000)
  .ok cfg

/-- `datum_read_config` on what `load_json_from_file` gives. -/
def datumReadConfig (mem : Nat → UInt8) (config : Option Json) :
    Except ReadStop GlobalConfig :=
  match config with
  | some (.object members) =>
    match Slots.readAll (readOption arith malloc (.object members)) datumConfigOptions
        (GlobalConfig.zero mem) with
    | .ok cfg => checkConfig cfg
    | .error stop => .error stop
  | _ => .error (.returned (-1) "Could not read configuration JSON file!")

end

/-! ## Which values are admitted -/

namespace GlobalConfig

theorem ext {cfg cfg' : GlobalConfig} (hint : ∀ field, cfg.int field = cfg'.int field)
    (hbool : ∀ field, cfg.bool field = cfg'.bool field)
    (hstring : ∀ field, cfg.string field = cfg'.string field)
    (hurls : cfg .extraBlockSubmissionsUrls = cfg' .extraBlockSubmissionsUrls)
    (hmods : cfg .stratumUsernameMod = cfg' .stratumUsernameMod) : cfg = cfg' := by
  funext ptr
  cases ptr with
  | int field => exact hint field
  | bool field => exact hbool field
  | string field => exact hstring field
  | extraBlockSubmissionsUrls => exact hurls
  | stratumUsernameMod => exact hmods

@[simp] theorem int_setInt (cfg : GlobalConfig) (field other : IntField) (value : Int) :
    (cfg.setInt field value).int other = if other = field then value else cfg.int other := by
  by_cases h : other = field
  · subst h
    rw [if_pos rfl]
    exact Function.update_self ..
  · rw [if_neg h]
    exact Function.update_of_ne (fun heq => h (ConfigPtr.int.inj heq)) ..

@[simp] theorem bool_setInt (cfg : GlobalConfig) (field : IntField) (value : Int)
    (other : BoolField) : (cfg.setInt field value).bool other = cfg.bool other := rfl

@[simp] theorem string_setInt (cfg : GlobalConfig) (field : IntField) (value : Int)
    (other : StringField) : (cfg.setInt field value).string other = cfg.string other := rfl

end GlobalConfig

/-- What is made of an `int` that is read. -/
def adjustedInt : IntField → Int → Int
  | .bitcoindWorkUpdateSeconds, value => max 5 (min 120 value)
  | .stratumV1VardiffMin, value => if 0 < value then 2 ^ Nat.log2 value.toNat else 0
  | .miningTemplateFastRecycleMs, value => if 0 < value ∧ value < 100 then 100 else value
  | _, value => value

/-- What is made of a value that is read. -/
def adjusted : (ptr : ConfigPtr) → ptr.Value → ptr.Value
  | .int field, value => adjustedInt field value
  | _, value => value

/-- All values of a configuration, adjusted. -/
def GlobalConfig.adjust (cfg : GlobalConfig) : GlobalConfig := fun ptr => adjusted ptr (cfg ptr)

/-- The bounds that the values of a configuration are within. -/
structure SoundConfig (cfg : GlobalConfig) : Prop where
  workUpdate : 5 ≤ cfg.int .bitcoindWorkUpdateSeconds ∧
    cfg.int .bitcoindWorkUpdateSeconds ≤ 120
  threads : cfg.int .stratumV1MaxThreads ≤ 64
  clientsPerThread : cfg.int .stratumV1MaxClientsPerThread ≤ 4096
  primaryTag : (cfg.string .miningCoinbaseTagPrimary).length ≤ 60
  secondaryTag : (cfg.string .miningCoinbaseTagSecondary).length ≤ 60
  targetShares : 1 ≤ cfg.int .stratumV1VardiffTargetSharesMin
  quickdiffCount : 4 ≤ cfg.int .stratumV1VardiffQuickdiffCount
  quickdiffDelta : 3 ≤ cfg.int .stratumV1VardiffQuickdiffDelta
  vardiffMin : 1 ≤ cfg.int .stratumV1VardiffMin
  places : -2 ^ 31 ≤ cfg.int .stratumV1MaxClientsPerThread * cfg.int .stratumV1MaxThreads ∧
    cfg.int .stratumV1MaxClientsPerThread * cfg.int .stratumV1MaxThreads < 2 ^ 31
  clients : cfg.int .stratumV1MaxClients ≤
    cfg.int .stratumV1MaxClientsPerThread * cfg.int .stratumV1MaxThreads
  shareStale : 60 ≤ cfg.int .stratumV1ShareStaleSeconds ∧
    cfg.int .stratumV1ShareStaleSeconds ≤ 150
  timeout : cfg.int .bitcoindWorkUpdateSeconds + 5 ≤ cfg.int .datumProtocolGlobalTimeout
  timeoutMs : cfg.int .datumProtocolGlobalTimeout * 1000 < 2 ^ 31
  supplierBps : 0 ≤ cfg.int .miningTemplateSupplierBps
  poolBps : 0 ≤ cfg.int .miningTemplatePoolBps
  feeBps : 0 ≤ cfg.int .miningChirpFeeBps
  templateBps : cfg.int .miningTemplateSupplierBps + cfg.int .miningTemplatePoolBps < 10000
  chirpBps : cfg.int .miningChirpFeeBps + cfg.int .miningTemplateSupplierBps < 10000
  fastRecycle : cfg.int .miningTemplateFastRecycleMs ≤ 0 ∨
    100 ≤ cfg.int .miningTemplateFastRecycleMs
  modes : cfg.bool .miningBlake2bChirp = true → cfg.bool .miningBlake2bPersonalLotto = false

/-- What else a gateway has to find in its configuration to start with it. -/
structure Startable (cfg : GlobalConfig) : Prop where
  password : cfg.string .bitcoindRpcuser ≠ [] → cfg.string .bitcoindRpcpassword ≠ []
  cookie : cfg.string .bitcoindRpcuser = [] → cfg.string .bitcoindRpccookiefile ≠ []
  tags : (cfg.string .miningCoinbaseTagPrimary).length +
    (cfg.string .miningCoinbaseTagSecondary).length ≤ 88
  poolHost : cfg.string .datumPoolHost = [] → cfg.bool .datumPooledMiningOnly = false

theorem refuse_bind_eq_ok_iff {β : Type} {bad : Bool} {text : String}
    {f : Unit → Except ReadStop β} {b : β} :
    (refuse bad text >>= f) = .ok b ↔ bad = false ∧ f () = .ok b := by
  cases bad <;> simp [refuse, bind, Except.bind]

theorem intResult_bind_eq_ok_iff {β : Type} {value : Int} {f : Int → Except ReadStop β}
    {b : β} :
    (intResult value >>= f) = .ok b ↔ (-2 ^ 31 ≤ value ∧ value < 2 ^ 31) ∧
      f value = .ok b := by
  rw [intResult]
  split
  · next h =>
    simp only [bind, Except.bind, reduceCtorEq, false_iff, not_and]
    omega
  · next h =>
    simp only [bind, Except.bind, iff_and_self]
    omega

theorem checkCredentials_bind_eq_ok_iff {β : Type} {cfg : GlobalConfig}
    {f : Unit → Except ReadStop β} {b : β} :
    (checkCredentials cfg >>= f) = .ok b ↔
      ((cfg.string .bitcoindRpcuser ≠ [] → cfg.string .bitcoindRpcpassword ≠ []) ∧
        (cfg.string .bitcoindRpcuser = [] → cfg.string .bitcoindRpccookiefile ≠ [])) ∧
      f () = .ok b := by
  by_cases huser : cfg.string .bitcoindRpcuser = []
  · simp [checkCredentials, huser, refuse_bind_eq_ok_iff]
  · simp [checkCredentials, huser, refuse_bind_eq_ok_iff]

namespace GlobalConfig

theorem setInt_self (cfg : GlobalConfig) (field : IntField) :
    cfg.setInt field (cfg.int field) = cfg :=
  Function.update_eq_self ..

end GlobalConfig

theorem clampWorkUpdate_eq (cfg : GlobalConfig) :
    clampWorkUpdate cfg = cfg.setInt .bitcoindWorkUpdateSeconds
      (adjustedInt .bitcoindWorkUpdateSeconds (cfg.int .bitcoindWorkUpdateSeconds)) := by
  simp only [clampWorkUpdate, adjustedInt]
  by_cases hlow : cfg.int .bitcoindWorkUpdateSeconds < 5
  · rw [if_pos hlow, if_neg (by simp)]
    congr 1
    omega
  · rw [if_neg hlow]
    by_cases hhigh : cfg.int .bitcoindWorkUpdateSeconds > 120
    · rw [if_pos hhigh]
      congr 1
      omega
    · rw [if_neg hhigh]
      exact (cfg.setInt_self _).symm.trans (by congr 1; omega)

theorem toNat_ofInt_64 (value : Int) : (UInt64.ofInt value).toNat = (value % 2 ^ 64).toNat :=
  UInt64.toNat_ofNat_of_lt' (show (value % 2 ^ 64).toNat < 2 ^ 64 by omega)

/-- As a 64-bit number a negative `int` has the top bit set. -/
theorem log2_of_negative {value : Int} (hlow : -2 ^ 31 ≤ value) (hneg : value < 0) :
    Nat.log2 (value % 2 ^ 64).toNat = 63 :=
  (Nat.log2_eq_iff (by omega)).mpr ⟨by omega, by omega⟩

theorem adjustVardiffMin_eq {cfg : GlobalConfig}
    (hlow : -2 ^ 31 ≤ cfg.int .stratumV1VardiffMin)
    (hhigh : cfg.int .stratumV1VardiffMin < 2 ^ 31) :
    adjustVardiffMin cfg =
      if cfg.int .stratumV1VardiffMin = 0 then .error .undefined
      else .ok (cfg.setInt .stratumV1VardiffMin
        (adjustedInt .stratumV1VardiffMin (cfg.int .stratumV1VardiffMin))) := by
  have hself := cfg.setInt_self .stratumV1VardiffMin
  have hnat := toNat_ofInt_64 (cfg.int .stratumV1VardiffMin)
  have hzero : UInt64.ofInt (cfg.int .stratumV1VardiffMin) = 0 ↔
      cfg.int .stratumV1VardiffMin = 0 := by
    rw [← UInt64.toNat_inj, hnat]
    simp only [UInt64.toNat_zero]
    omega
  simp only [adjustVardiffMin, hzero]
  by_cases hnone : cfg.int .stratumV1VardiffMin = 0
  · rw [if_pos hnone, if_pos hnone]
  · rw [if_neg hnone, if_neg hnone]
    have hround := toNat_roundDownToPowerOfTwo
      (x := UInt64.ofInt (cfg.int .stratumV1VardiffMin)) (by omega)
    by_cases hpos : 0 < cfg.int .stratumV1VardiffMin
    · rw [hnat, Int.emod_eq_of_lt (by omega) (by omega)] at hround
      have hle : 2 ^ Nat.log2 (cfg.int .stratumV1VardiffMin).toNat ≤
          (cfg.int .stratumV1VardiffMin).toNat := Nat.log2_self_le (by omega)
      have hadjusted : adjustedInt .stratumV1VardiffMin (cfg.int .stratumV1VardiffMin) =
          ((2 ^ Nat.log2 (cfg.int .stratumV1VardiffMin).toNat : Nat) : Int) := by
        rw [adjustedInt, if_pos hpos]
        push_cast
        rfl
      rw [hadjusted, ← hround]
      rw [← hround] at hle
      split
      · rw [Int.bmod_eq_of_le (by omega) (by omega)]
      · next hsame =>
        have heq := congrArg UInt64.toNat (not_not.mp hsame)
        rw [hnat, Int.emod_eq_of_lt (by omega) (by omega)] at heq
        rw [heq, Int.toNat_of_nonneg (by omega), hself]
    · have hlog := log2_of_negative hlow (by omega : cfg.int .stratumV1VardiffMin < 0)
      rw [hnat, hlog] at hround
      have hother : roundDownToPowerOfTwo (UInt64.ofInt (cfg.int .stratumV1VardiffMin)) ≠
          UInt64.ofInt (cfg.int .stratumV1VardiffMin) := by
        intro hsame
        rw [hsame, hnat] at hround
        omega
      rw [if_pos hother, hround, adjustedInt, if_neg hpos]
      rfl

theorem clampFastRecycle_eq (cfg : GlobalConfig) :
    clampFastRecycle cfg = cfg.setInt .miningTemplateFastRecycleMs
      (adjustedInt .miningTemplateFastRecycleMs (cfg.int .miningTemplateFastRecycleMs)) := by
  simp only [clampFastRecycle, adjustedInt, Bool.and_eq_true, decide_eq_true_eq, gt_iff_lt]
  split
  · rfl
  · exact (cfg.setInt_self _).symm

/-- What is made of the values, all in one. -/
theorem adjust_eq (cfg : GlobalConfig) :
    cfg.adjust =
      ((cfg.setInt .bitcoindWorkUpdateSeconds
          (adjustedInt .bitcoindWorkUpdateSeconds (cfg.int .bitcoindWorkUpdateSeconds))).setInt
        .stratumV1VardiffMin
          (adjustedInt .stratumV1VardiffMin (cfg.int .stratumV1VardiffMin))).setInt
        .miningTemplateFastRecycleMs
          (adjustedInt .miningTemplateFastRecycleMs (cfg.int .miningTemplateFastRecycleMs)) := by
  refine GlobalConfig.ext (fun field => ?_) (fun _ => rfl) (fun _ => rfl) rfl rfl
  simp only [GlobalConfig.int_setInt]
  cases field <;> rfl

theorem adjustVardiffMin_bind_eq_ok_iff {β : Type} {cfg : GlobalConfig}
    (hlow : -2 ^ 31 ≤ cfg.int .stratumV1VardiffMin)
    (hhigh : cfg.int .stratumV1VardiffMin < 2 ^ 31)
    {f : GlobalConfig → Except ReadStop β} {b : β} :
    (adjustVardiffMin cfg >>= f) = .ok b ↔
      cfg.int .stratumV1VardiffMin ≠ 0 ∧
      f (cfg.setInt .stratumV1VardiffMin
        (adjustedInt .stratumV1VardiffMin (cfg.int .stratumV1VardiffMin))) = .ok b := by
  rw [adjustVardiffMin_eq hlow hhigh]
  split
  · next h => simp [bind, Except.bind, h]
  · next h => simp [bind, Except.bind, h]

theorem adjustedVardiffMin_pos {value : Int} (h : 1 ≤ adjustedInt .stratumV1VardiffMin value) :
    value ≠ 0 := by
  rintro rfl
  exact absurd h (by decide)

theorem adjustedWorkUpdate_bounds (value : Int) :
    5 ≤ adjustedInt .bitcoindWorkUpdateSeconds value ∧
      adjustedInt .bitcoindWorkUpdateSeconds value ≤ 120 := by
  simp only [adjustedInt]
  omega

theorem adjustedFastRecycle_bounds (value : Int) :
    adjustedInt .miningTemplateFastRecycleMs value ≤ 0 ∨
      100 ≤ adjustedInt .miningTemplateFastRecycleMs value := by
  simp only [adjustedInt]
  omega

/-- A configuration that is read is accepted if its values, once adjusted, are admitted. -/
theorem checkConfig_eq_ok_iff {cfg cfg' : GlobalConfig}
    (hlow : -2 ^ 31 ≤ cfg.int .stratumV1VardiffMin)
    (hhigh : cfg.int .stratumV1VardiffMin < 2 ^ 31) :
    checkConfig cfg = .ok cfg' ↔ cfg' = cfg.adjust ∧ SoundConfig cfg' ∧ Startable cfg' := by
  have hwork := adjustedWorkUpdate_bounds (cfg.int .bitcoindWorkUpdateSeconds)
  have hrecycle := adjustedFastRecycle_bounds (cfg.int .miningTemplateFastRecycleMs)
  simp only [checkConfig, clampWorkUpdate_eq, clampFastRecycle_eq, checkCredentials_bind_eq_ok_iff,
    refuse_bind_eq_ok_iff]
  rw [adjustVardiffMin_bind_eq_ok_iff (by simpa using hlow) (by simpa using hhigh)]
  simp only [refuse_bind_eq_ok_iff, intResult_bind_eq_ok_iff, GlobalConfig.int_setInt,
    GlobalConfig.string_setInt, GlobalConfig.bool_setInt, reduceCtorEq, if_false, if_true,
    decide_eq_false_iff_not, Bool.or_eq_false_iff, Bool.and_eq_false_iff, Except.ok.injEq]
  rw [← adjust_eq, eq_comm (a := cfg.adjust)]
  constructor
  · rintro ⟨⟨huser, hcookie⟩, hthreads, hper, htags, ⟨hprimary, hsecondary⟩, hshares,
      hcount, hdelta,
      -, hmin, hplaces, hclients, hstale, hstale', htimeout, hhost, ⟨hsupplier, hpool⟩, -,
      htemplate,
      hfee, -, hchirp, hmodes, hms, rfl⟩
    refine ⟨rfl, ?_, huser, hcookie, not_lt.mp (of_decide_eq_false htags), ?_⟩
    · exact {
        workUpdate := hwork
        threads := not_lt.mp hthreads
        clientsPerThread := not_lt.mp hper
        primaryTag := not_lt.mp (of_decide_eq_false hprimary)
        secondaryTag := not_lt.mp (of_decide_eq_false hsecondary)
        targetShares := not_lt.mp hshares
        quickdiffCount := not_lt.mp hcount
        quickdiffDelta := not_lt.mp hdelta
        vardiffMin := not_lt.mp hmin
        places := hplaces
        clients := not_lt.mp hclients
        shareStale := ⟨not_lt.mp hstale, not_lt.mp hstale'⟩
        timeout := not_lt.mp htimeout
        timeoutMs := hms.2
        supplierBps := not_lt.mp hsupplier
        poolBps := not_lt.mp hpool
        feeBps := not_lt.mp hfee
        templateBps := not_le.mp htemplate
        chirpBps := not_le.mp hchirp
        fastRecycle := hrecycle
        modes := fun hon => hmodes.resolve_left fun hoff => Bool.noConfusion (hon.symm.trans hoff) }
    · exact fun hnone => hhost.resolve_left (not_not.mpr hnone)
  · rintro ⟨rfl, hsound, hstart⟩
    have hhost : cfg.string .datumPoolHost ≠ [] ∨ cfg.bool .datumPooledMiningOnly = false :=
      or_iff_not_imp_left.mpr fun hnone => hstart.poolHost (not_not.mp hnone)
    have hmodes : cfg.bool .miningBlake2bChirp = false ∨
        cfg.bool .miningBlake2bPersonalLotto = false := by
      cases hchirp : cfg.bool .miningBlake2bChirp with
      | false => exact .inl rfl
      | true => exact .inr (hsound.modes hchirp)
    have htemplate :
        -2 ^ 31 ≤ cfg.int .miningTemplateSupplierBps + cfg.int .miningTemplatePoolBps ∧
        cfg.int .miningTemplateSupplierBps + cfg.int .miningTemplatePoolBps < 2 ^ 31 :=
      ⟨Int.le_trans (by decide) (Int.add_nonneg hsound.supplierBps hsound.poolBps),
        Int.lt_trans hsound.templateBps (by decide)⟩
    have hchirp : -2 ^ 31 ≤ cfg.int .miningChirpFeeBps + cfg.int .miningTemplateSupplierBps ∧
        cfg.int .miningChirpFeeBps + cfg.int .miningTemplateSupplierBps < 2 ^ 31 :=
      ⟨Int.le_trans (by decide) (Int.add_nonneg hsound.feeBps hsound.supplierBps),
        Int.lt_trans hsound.chirpBps (by decide)⟩
    have hms : -2 ^ 31 ≤ cfg.int .datumProtocolGlobalTimeout * 1000 ∧
        cfg.int .datumProtocolGlobalTimeout * 1000 < 2 ^ 31 := by
      have hlong : (5 : Int) + 5 ≤ cfg.int .datumProtocolGlobalTimeout :=
        Int.le_trans (Int.add_le_add_right hsound.workUpdate.1 5) hsound.timeout
      exact ⟨by omega, hsound.timeoutMs⟩
    refine ⟨⟨hstart.password, hstart.cookie⟩, not_lt.mpr hsound.threads,
      not_lt.mpr hsound.clientsPerThread, decide_eq_false (not_lt.mpr hstart.tags),
      ⟨decide_eq_false (not_lt.mpr hsound.primaryTag),
        decide_eq_false (not_lt.mpr hsound.secondaryTag)⟩, not_lt.mpr hsound.targetShares,
      not_lt.mpr hsound.quickdiffCount, not_lt.mpr hsound.quickdiffDelta,
      adjustedVardiffMin_pos hsound.vardiffMin, not_lt.mpr hsound.vardiffMin, hsound.places,
      not_lt.mpr hsound.clients, not_lt.mpr hsound.shareStale.1, not_lt.mpr hsound.shareStale.2,
      not_lt.mpr hsound.timeout, hhost,
      ⟨not_lt.mpr hsound.supplierBps, not_lt.mpr hsound.poolBps⟩,
      htemplate, not_le.mpr hsound.templateBps, not_lt.mpr hsound.feeBps, hchirp,
      not_le.mpr hsound.chirpBps, hmodes, hms, rfl⟩

/-! ## Which files are accepted -/

section

variable {α : Type} {arith : ShareArith α} {malloc : Nat → Option Nat} {mem : Nat → UInt8}

/-- A number that is read is an `int`. -/
theorem int_of_readOption {config : Json} {field : IntField} {old value : Int}
    (h : readOption arith malloc config (.int field) old = .ok value) :
    -2 ^ 31 ≤ value ∧ value < 2 ^ 31 := by
  have hdefault : -2 ^ 31 ≤ field.item.default ∧ field.item.default < 2 ^ 31 := by
    cases field <;> decide
  simp only [readOption] at h
  split at h
  · split at h
    · cases h
    · cases h
      exact hdefault
  · generalize (givenItem config (.int field)).getD .null = item at h
    cases item with
    | integer number =>
      rw [datumConfigParseValue] at h
      by_cases hout : number > 2 ^ 31 - 1 ∨ number < -2 ^ 31
      · rw [if_pos hout] at h
        cases h
      · rw [if_neg hout] at h
        cases h
        omega
    | null =>
      cases h
      decide
    | _ => cases h

variable (arith malloc mem) in
/-- The option has the value that the file gives it. -/
def HoldsAt (config : Json) (cfg : GlobalConfig) (ptr : ConfigPtr) : Prop :=
  ∃ value, readOption arith malloc config ptr (GlobalConfig.zero mem ptr) = .ok value ∧
    cfg ptr = adjusted ptr value

theorem datumReadConfig_eq_ok_iff {config : Json} {cfg : GlobalConfig} :
    datumReadConfig arith malloc mem (some config) = .ok cfg ↔
      config.isObject = true ∧ (∀ ptr, HoldsAt arith malloc mem config cfg ptr) ∧
        SoundConfig cfg ∧ Startable cfg := by
  cases config with
  | object members =>
    have hall (read : GlobalConfig) :
        Slots.readAll (readOption arith malloc (.object members)) datumConfigOptions
            (GlobalConfig.zero mem) = .ok read ↔
          ∀ ptr, readOption arith malloc (.object members) ptr (GlobalConfig.zero mem ptr) =
            .ok (read ptr) := by
      rw [Slots.readAll_eq_ok_iff nodup_datumConfigOptions]
      exact ⟨fun h ptr => h.1 ptr (mem_datumConfigOptions ptr),
        fun h => ⟨fun ptr _ => h ptr,
          fun ptr hnot => absurd (mem_datumConfigOptions ptr) hnot⟩⟩
    constructor
    · intro h
      simp only [datumReadConfig] at h
      split at h
      · next read hread =>
        rw [hall] at hread
        have hrange := int_of_readOption (hread (.int .stratumV1VardiffMin))
        obtain ⟨rfl, hsound, hstart⟩ := (checkConfig_eq_ok_iff hrange.1 hrange.2).mp h
        exact ⟨rfl, fun ptr => ⟨read ptr, hread ptr, rfl⟩, hsound, hstart⟩
      · cases h
    · rintro ⟨-, hholds, hsound, hstart⟩
      choose read hread hcfg using hholds
      have hrange := int_of_readOption (hread (.int .stratumV1VardiffMin))
      have hadjust : cfg = GlobalConfig.adjust read := funext hcfg
      simp only [datumReadConfig, (hall read).mpr hread]
      exact (checkConfig_eq_ok_iff hrange.1 hrange.2).mpr ⟨hadjust, hsound, hstart⟩
  | _ =>
    constructor
    · intro h
      cases h
    · rintro ⟨hobject, -⟩
      cases hobject

end

end ChirpGateway
