import ChirpGateway.Config.UsernameMods
import Mathlib.Logic.Function.Basic

/-!
# The options of the configuration

The table `datum_config_options` (`datum_conf.c:65-231`) without the texts of its help: for each
option its place in the file, whether it is required, its default and the field it is kept in.
The fields of `global_config_t` that are options are a function on their pointers.
-/

namespace ChirpGateway

open Bytes

/-- The fields of type `int`. -/
inductive IntField where
  | bitcoindWorkUpdateSeconds | bitcoindNotifyPollSeconds | stratumV1ListenPort
  | stratumV1MaxClientsPerThread | stratumV1MaxThreads | stratumV1MaxClients | stratumV1TrustProxy
  | stratumV1VardiffMin | stratumV1VardiffTargetSharesMin | stratumV1VardiffQuickdiffCount
  | stratumV1VardiffQuickdiffDelta | stratumV1ShareStaleSeconds | stratumV1IdleTimeoutNoSubscribe
  | stratumV1IdleTimeoutNoShare | stratumV1IdleTimeoutMaxLastWork | coinbaseUniqueId
  | miningTemplateSupplierBps | miningTemplatePoolBps | miningTemplateActivateHeight
  | miningCarouselBlockStride | miningTemplateFastRecycleMs | miningChirpFeeBps | apiListenPort
  | clogLevelConsole | clogLevelFile | datumPoolPort | datumProtocolGlobalTimeout
  deriving DecidableEq

/-- The fields of type `bool`. -/
inductive BoolField where
  | bitcoindNotifyFallback | stratumV1FingerprintMiners | miningAllowHasherTimeRolling
  | miningBlake2bPersonalLotto | miningBlake2bTemplate | miningTemplateRequireValidated
  | miningBlake2bChirp | miningBlake2bTemplateCarousel | apiAllowInsecureAuth | apiModifyConf
  | clogToConsole | clogToStderr | clogToFile | clogRotateDaily | clogCallingFunction
  | datumPoolPassWorkers | datumPoolPassFullUsers | datumAlwaysPaySelf | datumPooledMiningOnly
  deriving DecidableEq

/-- The fields that are arrays of `char`. -/
inductive StringField where
  | bitcoindRpccookiefile | bitcoindRpcuser | bitcoindRpcpassword | bitcoindRpcurl
  | stratumV1ListenAddr | miningPoolAddress | miningCoinbaseTagPrimary | miningCoinbaseTagSecondary
  | miningSaveSubmitblocksDir | miningPowAlgorithm | miningTemplateFile
  | miningTemplateSupplierAddress | miningTemplateActivateTag | miningTemplateDir
  | apiAdminPassword | apiListenAddr | clogFile | datumPoolHost | datumPoolPubkey
  deriving DecidableEq

/-- What `.ptr` of an option points to. -/
inductive ConfigPtr where
  | int (field : IntField)
  | bool (field : BoolField)
  | string (field : StringField)
  | extraBlockSubmissionsUrls
  | stratumUsernameMod
  deriving DecidableEq

/-- The values of a field: of a string, the C string in it, of the list of URLs, those before
    the first empty one. -/
abbrev ConfigPtr.Value : ConfigPtr → Type
  | .int _ => Int
  | .bool _ => Bool
  | .string _ => List UInt8
  | .extraBlockSubmissionsUrls => List (List UInt8)
  | .stratumUsernameMod => ModsState

/-- `global_config_t`, as far as its fields are options. -/
abbrev GlobalConfig : Type := (ptr : ConfigPtr) → ptr.Value

namespace GlobalConfig

def int (cfg : GlobalConfig) (field : IntField) : Int := cfg (.int field)

def bool (cfg : GlobalConfig) (field : BoolField) : Bool := cfg (.bool field)

def string (cfg : GlobalConfig) (field : StringField) : List UInt8 := cfg (.string field)

/-- A field of type `int` with another value. -/
def setInt (cfg : GlobalConfig) (field : IntField) (value : Int) : GlobalConfig :=
  Function.update cfg (.int field) value

def setBool (cfg : GlobalConfig) (field : BoolField) (value : Bool) : GlobalConfig :=
  Function.update cfg (.bool field) value

def setString (cfg : GlobalConfig) (field : StringField) (value : List UInt8) : GlobalConfig :=
  Function.update cfg (.string field) value

/-- `memset(&datum_config, 0, sizeof(global_config_t))`, with the memory as it is. -/
def zero (mem : Nat → UInt8) : GlobalConfig
  | .int _ => (0 : Int)
  | .bool _ => false
  | .string _ => ([] : List UInt8)
  | .extraBlockSubmissionsUrls => ([] : List (List UInt8))
  | .stratumUsernameMod => ({ umods := none, mem := mem, freed := [] } : ModsState)

end GlobalConfig

/-- `sizeof` of the field. -/
def StringField.size : StringField → Nat
  | .miningPowAlgorithm => 16
  | .miningCoinbaseTagPrimary | .miningCoinbaseTagSecondary => 64
  | .apiAdminPassword => 72
  | .bitcoindRpcuser | .bitcoindRpcpassword | .stratumV1ListenAddr | .apiListenAddr => 128
  | .bitcoindRpcurl | .miningPoolAddress | .miningSaveSubmitblocksDir | .miningTemplateFile
  | .miningTemplateSupplierAddress | .miningTemplateActivateTag | .miningTemplateDir => 256
  | .bitcoindRpccookiefile | .clogFile | .datumPoolHost | .datumPoolPubkey => 1024

/-- A row of the table, but for its pointer. -/
structure ConfigItem (α : Type) where
  category : String
  name : String
  required : Bool
  default : α

def IntField.item : IntField → ConfigItem Int
  | .bitcoindWorkUpdateSeconds => ⟨"bitcoind", "work_update_seconds", false, 40⟩
  | .bitcoindNotifyPollSeconds => ⟨"bitcoind", "notify_poll_seconds", false, 1⟩
  | .stratumV1ListenPort => ⟨"stratum", "listen_port", false, 23334⟩
  | .stratumV1MaxClientsPerThread => ⟨"stratum", "max_clients_per_thread", false, 128⟩
  | .stratumV1MaxThreads => ⟨"stratum", "max_threads", false, 8⟩
  | .stratumV1MaxClients => ⟨"stratum", "max_clients", false, 1024⟩
  | .stratumV1TrustProxy => ⟨"stratum", "trust_proxy", false, -1⟩
  | .stratumV1VardiffMin => ⟨"stratum", "vardiff_min", false, 16384⟩
  | .stratumV1VardiffTargetSharesMin => ⟨"stratum", "vardiff_target_shares_min", false, 8⟩
  | .stratumV1VardiffQuickdiffCount => ⟨"stratum", "vardiff_quickdiff_count", false, 8⟩
  | .stratumV1VardiffQuickdiffDelta => ⟨"stratum", "vardiff_quickdiff_delta", false, 8⟩
  | .stratumV1ShareStaleSeconds => ⟨"stratum", "share_stale_seconds", false, 120⟩
  | .stratumV1IdleTimeoutNoSubscribe => ⟨"stratum", "idle_timeout_no_subscribe", false, 15⟩
  | .stratumV1IdleTimeoutNoShare => ⟨"stratum", "idle_timeout_no_shares", false, 7200⟩
  | .stratumV1IdleTimeoutMaxLastWork => ⟨"stratum", "idle_timeout_max_last_work", false, 0⟩
  | .coinbaseUniqueId => ⟨"mining", "coinbase_unique_id", false, 4242⟩
  | .miningTemplateSupplierBps => ⟨"mining", "template_supplier_bps", false, 300⟩
  | .miningTemplatePoolBps => ⟨"mining", "template_pool_bps", false, 100⟩
  | .miningTemplateActivateHeight => ⟨"mining", "template_activate_height", false, 0⟩
  | .miningCarouselBlockStride => ⟨"mining", "carousel_block_stride", false, 0⟩
  | .miningTemplateFastRecycleMs => ⟨"mining", "template_fast_recycle_ms", false, 5000⟩
  | .miningChirpFeeBps => ⟨"mining", "chirp_fee_bps", false, 90⟩
  | .apiListenPort => ⟨"api", "listen_port", false, 0⟩
  | .clogLevelConsole => ⟨"logger", "log_level_console", false, 2⟩
  | .clogLevelFile => ⟨"logger", "log_level_file", false, 1⟩
  | .datumPoolPort => ⟨"datum", "pool_port", false, 28915⟩
  | .datumProtocolGlobalTimeout => ⟨"datum", "protocol_global_timeout", false, 60⟩

def BoolField.item : BoolField → ConfigItem Bool
  | .bitcoindNotifyFallback => ⟨"bitcoind", "notify_fallback", false, true⟩
  | .stratumV1FingerprintMiners => ⟨"stratum", "fingerprint_miners", false, true⟩
  | .miningAllowHasherTimeRolling => ⟨"mining", "allow_hasher_time_rolling", false, false⟩
  | .miningBlake2bPersonalLotto => ⟨"mining", "blake2b_personal_lotto", false, false⟩
  | .miningBlake2bTemplate => ⟨"mining", "blake2b_template", false, false⟩
  | .miningTemplateRequireValidated => ⟨"mining", "template_require_validated", false, true⟩
  | .miningBlake2bChirp => ⟨"mining", "blake2b_chirp", false, false⟩
  | .miningBlake2bTemplateCarousel => ⟨"mining", "blake2b_template_carousel", false, false⟩
  | .apiAllowInsecureAuth => ⟨"api", "allow_insecure_auth", false, false⟩
  | .apiModifyConf => ⟨"api", "modify_conf", false, false⟩
  | .clogToConsole => ⟨"logger", "log_to_console", false, true⟩
  | .clogToStderr => ⟨"logger", "log_to_stderr", false, false⟩
  | .clogToFile => ⟨"logger", "log_to_file", false, false⟩
  | .clogRotateDaily => ⟨"logger", "log_rotate_daily", false, true⟩
  | .clogCallingFunction => ⟨"logger", "log_calling_function", false, true⟩
  | .datumPoolPassWorkers => ⟨"datum", "pool_pass_workers", false, true⟩
  | .datumPoolPassFullUsers => ⟨"datum", "pool_pass_full_users", false, true⟩
  | .datumAlwaysPaySelf => ⟨"datum", "always_pay_self", false, true⟩
  | .datumPooledMiningOnly => ⟨"datum", "pooled_mining_only", false, true⟩

/-- Where an option is required, there is no default string. -/
def StringField.item : StringField → ConfigItem (List UInt8)
  | .bitcoindRpccookiefile => ⟨"bitcoind", "rpccookiefile", false, []⟩
  | .bitcoindRpcuser => ⟨"bitcoind", "rpcuser", false, []⟩
  | .bitcoindRpcpassword => ⟨"bitcoind", "rpcpassword", false, []⟩
  | .bitcoindRpcurl => ⟨"bitcoind", "rpcurl", true, []⟩
  | .stratumV1ListenAddr => ⟨"stratum", "listen_addr", false, []⟩
  | .miningPoolAddress => ⟨"mining", "pool_address", true, []⟩
  | .miningCoinbaseTagPrimary =>
    ⟨"mining", "coinbase_tag_primary", false, ascii "DATUM Gateway"⟩
  | .miningCoinbaseTagSecondary =>
    ⟨"mining", "coinbase_tag_secondary", false, ascii "DATUM User"⟩
  | .miningSaveSubmitblocksDir => ⟨"mining", "save_submitblocks_dir", false, []⟩
  | .miningPowAlgorithm => ⟨"mining", "pow_algorithm", false, ascii "auto"⟩
  | .miningTemplateFile => ⟨"mining", "template_file", false, []⟩
  | .miningTemplateSupplierAddress => ⟨"mining", "template_supplier_address", false, []⟩
  | .miningTemplateActivateTag => ⟨"mining", "template_activate_tag", false, []⟩
  | .miningTemplateDir => ⟨"mining", "template_dir", false, []⟩
  | .apiAdminPassword => ⟨"api", "admin_password", false, []⟩
  | .apiListenAddr => ⟨"api", "listen_addr", false, []⟩
  | .clogFile => ⟨"logger", "log_file", false, []⟩
  | .datumPoolHost => ⟨"datum", "pool_host", false, ascii "datum-beta1.mine.ocean.xyz"⟩
  | .datumPoolPubkey => ⟨"datum", "pool_pubkey", false,
      ascii "f21f2f0ef0aa1970468f22bad9bb7f4535146f8e4a8f646bebc93da3d89b1406" ++
        ascii "f40d032f09a417d94dc068055df654937922d2c89522e3e8f6f0e649de473003"⟩

namespace ConfigPtr

def category : ConfigPtr → String
  | .int field => field.item.category
  | .bool field => field.item.category
  | .string field => field.item.category
  | .extraBlockSubmissionsUrls => "extra_block_submissions"
  | .stratumUsernameMod => "stratum"

def name : ConfigPtr → String
  | .int field => field.item.name
  | .bool field => field.item.name
  | .string field => field.item.name
  | .extraBlockSubmissionsUrls => "urls"
  | .stratumUsernameMod => "username_modifiers"

def required : ConfigPtr → Bool
  | .int field => field.item.required
  | .bool field => field.item.required
  | .string field => field.item.required
  | .extraBlockSubmissionsUrls => false
  | .stratumUsernameMod => false

end ConfigPtr

/-- The rows of the table in their order. -/
def datumConfigOptions : List ConfigPtr :=
  [.string .bitcoindRpccookiefile, .string .bitcoindRpcuser, .string .bitcoindRpcpassword,
    .string .bitcoindRpcurl, .int .bitcoindWorkUpdateSeconds, .bool .bitcoindNotifyFallback,
    .int .bitcoindNotifyPollSeconds, .string .stratumV1ListenAddr, .int .stratumV1ListenPort,
    .int .stratumV1MaxClientsPerThread, .int .stratumV1MaxThreads, .int .stratumV1MaxClients,
    .int .stratumV1TrustProxy, .int .stratumV1VardiffMin, .int .stratumV1VardiffTargetSharesMin,
    .int .stratumV1VardiffQuickdiffCount, .int .stratumV1VardiffQuickdiffDelta,
    .int .stratumV1ShareStaleSeconds, .bool .stratumV1FingerprintMiners,
    .int .stratumV1IdleTimeoutNoSubscribe, .int .stratumV1IdleTimeoutNoShare,
    .int .stratumV1IdleTimeoutMaxLastWork, .stratumUsernameMod, .string .miningPoolAddress,
    .string .miningCoinbaseTagPrimary, .string .miningCoinbaseTagSecondary, .int .coinbaseUniqueId,
    .string .miningSaveSubmitblocksDir, .bool .miningAllowHasherTimeRolling,
    .string .miningPowAlgorithm, .bool .miningBlake2bPersonalLotto, .bool .miningBlake2bTemplate,
    .string .miningTemplateFile, .string .miningTemplateSupplierAddress,
    .int .miningTemplateSupplierBps, .int .miningTemplatePoolBps,
    .bool .miningTemplateRequireValidated, .int .miningTemplateActivateHeight,
    .int .miningCarouselBlockStride, .string .miningTemplateActivateTag,
    .int .miningTemplateFastRecycleMs, .bool .miningBlake2bChirp, .int .miningChirpFeeBps,
    .bool .miningBlake2bTemplateCarousel, .string .miningTemplateDir, .string .apiAdminPassword,
    .bool .apiAllowInsecureAuth, .string .apiListenAddr, .int .apiListenPort, .bool .apiModifyConf,
    .extraBlockSubmissionsUrls, .bool .clogToConsole, .bool .clogToStderr, .bool .clogToFile,
    .string .clogFile, .bool .clogRotateDaily, .bool .clogCallingFunction, .int .clogLevelConsole,
    .int .clogLevelFile, .string .datumPoolHost, .int .datumPoolPort, .string .datumPoolPubkey,
    .bool .datumPoolPassWorkers, .bool .datumPoolPassFullUsers, .bool .datumAlwaysPaySelf,
    .bool .datumPooledMiningOnly, .int .datumProtocolGlobalTimeout]

/-! ## The table -/

theorem mem_datumConfigOptions (ptr : ConfigPtr) : ptr ∈ datumConfigOptions := by
  rcases ptr with field | field | field | _ | _
  · cases field <;> decide
  · cases field <;> decide
  · cases field <;> decide
  · decide
  · decide

theorem nodup_datumConfigOptions : datumConfigOptions.Nodup := by
  decide +kernel

/-- No two options have one place in the file. -/
theorem place_injective {ptr ptr' : ConfigPtr} (hcategory : ptr.category = ptr'.category)
    (hname : ptr.name = ptr'.name) : ptr = ptr' := by
  have hall : ∀ p ∈ datumConfigOptions, ∀ q ∈ datumConfigOptions,
      p.category = q.category → p.name = q.name → p = q := by decide +kernel
  exact hall ptr (mem_datumConfigOptions ptr) ptr' (mem_datumConfigOptions ptr') hcategory hname

end ChirpGateway
