import ChirpGateway.Api.Password
import ChirpGateway.Config.SavedFile

/-!
# The configuration form

`datum_api_config_post` (`datum_api.c:1509-1615`) with the reading of the form
(`datum_api.c:425-456`) and the write of the file (`datum_api.c:1208-1228`), and the life of a
gateway whose configuration it changes: forms that are sent, writes of the file that fail,
templates that are activated, and restarts.
-/

namespace ChirpGateway

open Bytes Buffer

/-- The fields of a form as an object, each with its text. -/
abbrev Form : Type := List (List UInt8 × List UInt8)

/-- `json_object_set_new(j, key, json_stringn(data, size))`: what is not UTF-8 is no text, and
    then nothing is set. -/
def Form.set (form : Form) (key data : List UInt8) : Form :=
  if validUtf8 key && validUtf8 data then
    if (form.lookup key).isSome then
      form.map fun field => if field.1 = key then (key, data) else field
    else form ++ [(key, data)]
  else form

/-- `datum_api_formdata_to_json`, of the named fields the library finds in what was posted. -/
def datumApiFormdataToJson (posted : List (List UInt8 × List UInt8)) : Form :=
  posted.foldl (fun form field => form.set field.1 field.2) []

/-- The names that are separated by blanks; `token` is the beginning of one. -/
def checkboxTokens (token : List UInt8) : List UInt8 → List (List UInt8)
  | [] => if token = [] then [] else [token]
  | ch :: rest =>
    if ch = 32 then token :: checkboxTokens [] rest
    else if ch = 0 then
      -- the rest of the field, which the copy of the name is cut from
      if token = [] then [] else [token ++ ch :: rest]
    else checkboxTokens (token ++ [ch]) rest

/-- A checkbox that is not in the form is off. -/
def addCheckbox (form : Form) (token : List UInt8) : Form :=
  let name := cString token
  if token.length < 256 && (form.lookup name).isNone then form ++ [(name, ascii "0")] else form

/-- `json_object_del` -/
def Form.del (form : Form) (name : List UInt8) : Form := form.filter fun field => field.1 ≠ name

/-- What the browser is shown. -/
inductive ConfigReply where
  /-- Status 403. -/
  | forbidden
  /-- Status 500. -/
  | serverError
  /-- What the check of the password sends. -/
  | login (check : AdminCheck)
  | errors (texts : List (List UInt8))
  | restarting
  /-- `Location: /config` -/
  | config

/-- A gateway: what it runs with, the document, and the name of its file and what it holds. -/
structure Gateway where
  cfg : GlobalConfig
  configJson : Json
  filename : List UInt8
  file : Json

/-- The settings of the form in turn. -/
def makeSettings (sha256 : List UInt8 → List UInt8) :
    Form → SettingState → Option SettingState
  | [], s => some s
  | (key, val) :: form, s =>
    (datumApiConfigSet sha256 key (cString val) s).bind fun done => makeSettings sha256 form done.1

/-- `.new` and its end have room behind the name in `buf`, which the source asserts to have a
    character. -/
def NameFits (filename : List UInt8) : Prop := 0 < filename.length ∧ filename.length + 5 ≤ 256

instance (filename : List UInt8) : Decidable (NameFits filename) :=
  inferInstanceAs (Decidable (_ ∧ _))

/-- `datum_api_json_write`, where `written` tells if the file can be written and renamed; `none`
    is a write behind the end of `buf`. -/
def datumApiJsonWrite (filename : List UInt8) (written : Bool) : Option Bool :=
  if NameFits filename then some written else none

/-- The errors that are shown in the end; `written` tells if the file could be written. -/
def configErrors (s : SettingState) (written : Bool) : List (List UInt8) :=
  let errors :=
    if s.modifiedConfig && !written then
      s.errors ++ [if s.needRestart then
        ascii "Error writing new config file (changes will be lost)"
      else ascii "Error writing new config file (changes will be lost at restart)"]
    else s.errors
  if errors ≠ [] && s.needRestart then
    ascii ("NOTE: Other changes require a gateway restart. " ++
      "Please wait a few seconds before trying again.") :: errors
  else errors

/-- The settings that are made of a form; `none` where it has no `checkboxes`. -/
def Form.settings (form : Form) : Option Form :=
  let form := (form.del (ascii "csrf")).del (ascii "password")
  (form.lookup (ascii "checkboxes")).map fun checkboxes =>
    ((checkboxTokens [] checkboxes).foldl addCheckbox form).del (ascii "checkboxes")

/-- What settings are made on. -/
def Gateway.settingState (g : Gateway) : SettingState where
  cfg := g.cfg
  configJson := g.configJson
  errors := []
  modifiedConfig := false
  needRestart := false

/-- `datum_api_config_post`; `none` where the process ends or writes behind the end of a buffer:
    it reads through a null pointer where the form has no `checkboxes`. -/
def datumApiConfigPost (sha256 : List UInt8 → List UInt8)
    (posted : Option (List (List UInt8 × List UInt8))) (digestAuth written : Bool) (g : Gateway) :
    Option (Gateway × ConfigReply) :=
  if !g.cfg.bool .apiModifyConf then some (g, .forbidden)
  else
    match posted with
    | none => some (g, .serverError)
    | some posted =>
      let form := datumApiFormdataToJson posted
      match datumApiCheckAdminPassword sha256 g.cfg (form.lookup (ascii "password"))
          (form.lookup (ascii "csrf")) digestAuth with
      | .granted => do
        let settings ← form.settings
        let s ← makeSettings sha256 settings g.settingState
        let written ←
          if s.modifiedConfig then datumApiJsonWrite g.filename written else some written
        let errors := configErrors s written
        return ({ g with
            cfg := s.cfg
            configJson := s.configJson
            file := if s.modifiedConfig && written then s.configJson else g.file },
          if errors ≠ [] then .errors errors
          else if s.needRestart then .restarting
          else .config)
      | check => some (g, .login check)

/-! ## The life of a gateway -/

/-- What happens to it. -/
inductive GatewayEvent where
  | post (posted : Option (List (List UInt8 × List UInt8))) (digestAuth written : Bool)
  /-- The height is reached from which its templates are served. -/
  | activate
  | restart

section

variable {α : Type} (arith : ShareArith α) (malloc : Nat → Option Nat) (mem : Nat → UInt8)
  (sha256 : List UInt8 → List UInt8)

/-- The gateway reads its file, and goes on only if it is accepted. -/
def startGateway (filename : List UInt8) (file : Json) : Option Gateway :=
  match datumReadConfig arith malloc mem (some file) with
  | .ok cfg => some { cfg := cfg, configJson := file, filename := filename, file := file }
  | .error _ => none

/-- The tag of the coinbase is replaced, where another is given. -/
def activateTemplates (cfg : GlobalConfig) : GlobalConfig :=
  if cfg.bool .miningBlake2bTemplate && cfg.int .miningTemplateActivateHeight > 0 &&
      cfg.string .miningTemplateActivateTag ≠ [] then
    cfg.setString .miningCoinbaseTagPrimary ((cfg.string .miningTemplateActivateTag).take 63)
  else cfg

def gatewayStep (event : GatewayEvent) (g : Gateway) : Option Gateway :=
  match event with
  | .post posted digestAuth written =>
    (datumApiConfigPost sha256 posted digestAuth written g).map Prod.fst
  | .activate => some { g with cfg := activateTemplates g.cfg }
  | .restart => startGateway arith malloc mem g.filename g.file

def gatewayRun : List GatewayEvent → Gateway → Option Gateway
  | [], g => some g
  | event :: events, g =>
    (gatewayStep arith malloc mem sha256 event g).bind (gatewayRun events)

end

section

variable {α : Type} {arith : ShareArith α} {malloc : Nat → Option Nat} {mem : Nat → UInt8}
  {sha256 : List UInt8 → List UInt8} {tag : List UInt8}

/-! ## Forms -/

theorem lookup_set_isSome_iff (form : Form) (key data name : List UInt8) :
    ((form.set key data).lookup name).isSome = true ↔
      (form.lookup name).isSome = true ∨
        (name = key ∧ validUtf8 key = true ∧ validUtf8 data = true) := by
  have hmem (fields : Form) : (fields.lookup name).isSome = true ↔
      name ∈ fields.map Prod.fst := by
    rw [List.lookup_isSome_iff, List.mem_map]
    simp only [beq_iff_eq]
    exact ⟨fun ⟨field, hfield, hname⟩ => ⟨field, hfield, hname.symm⟩,
      fun ⟨field, hfield, hname⟩ => ⟨field, hfield, hname.symm⟩⟩
  rw [hmem, hmem, Form.set]
  split
  · next hvalid =>
    rw [Bool.and_eq_true] at hvalid
    split
    · next hfound =>
      have hnames : (form.map fun field => if field.1 = key then (key, data) else field).map
          Prod.fst = form.map Prod.fst := by
        rw [List.map_map]
        apply List.map_congr_left
        intro field _
        rw [Function.comp_apply]
        split
        · next hkey => exact hkey.symm
        · rfl
      rw [hnames]
      refine ⟨.inl, ?_⟩
      rintro (hname | ⟨rfl, -⟩)
      · exact hname
      · exact (hmem form).mp hfound
    · simp [hvalid]
  · next hvalid =>
    rw [Bool.and_eq_true] at hvalid
    refine ⟨.inl, ?_⟩
    rintro (hname | ⟨-, hboth⟩)
    · exact hname
    · exact absurd hboth hvalid

/-- A form has the fields that were posted as UTF-8. -/
theorem lookup_formdataToJson_isSome_iff (posted : List (List UInt8 × List UInt8))
    (name : List UInt8) :
    ((datumApiFormdataToJson posted).lookup name).isSome = true ↔
      ∃ data, (name, data) ∈ posted ∧ validUtf8 name = true ∧ validUtf8 data = true := by
  induction posted using List.reverseRecOn with
  | nil => simp [datumApiFormdataToJson]
  | append_singleton posted field ih =>
    obtain ⟨key, data⟩ := field
    rw [datumApiFormdataToJson] at ih
    rw [datumApiFormdataToJson, List.foldl_append, List.foldl_cons, List.foldl_nil,
      lookup_set_isSome_iff, ih]
    constructor
    · rintro (⟨old, hold, hvalid⟩ | ⟨rfl, hvalid⟩)
      · exact ⟨old, List.mem_append_left _ hold, hvalid⟩
      · exact ⟨data, List.mem_append_right _ (List.mem_singleton_self _), hvalid⟩
    · rintro ⟨found, hfound, hvalid⟩
      rcases List.mem_append.mp hfound with hold | hnew
      · exact .inl ⟨found, hold, hvalid⟩
      · cases List.mem_singleton.mp hnew
        exact .inr ⟨rfl, hvalid⟩

/-- Deleting a field leaves the others. -/
theorem lookup_del {form : Form} {name other : List UInt8} (hne : other ≠ name) :
    (form.del name).lookup other = form.lookup other := by
  induction form with
  | nil => rfl
  | cons field form ih =>
    by_cases hname : field.1 = name
    · have hother : (other == field.1) = false := by simpa [hname] using hne
      have hdel : Form.del (field :: form) name = Form.del form name :=
        List.filter_cons_of_neg (by simpa using hname)
      rw [hdel, ih, List.lookup_cons, hother]
    · have hdel : Form.del (field :: form) name = field :: Form.del form name :=
        List.filter_cons_of_pos (by simpa using hname)
      rw [hdel, List.lookup_cons, List.lookup_cons, ih]

/-- A form has settings where its checkboxes were posted as UTF-8. -/
theorem settings_eq_none_iff (posted : List (List UInt8 × List UInt8)) :
    (datumApiFormdataToJson posted).settings = none ↔
      ¬∃ data, (ascii "checkboxes", data) ∈ posted ∧ validUtf8 data = true := by
  have hname : validUtf8 (ascii "checkboxes") = true := by decide +kernel
  have hpassword : ascii "checkboxes" ≠ ascii "password" := by decide
  have hcsrf : ascii "checkboxes" ≠ ascii "csrf" := by decide
  rw [Form.settings, Option.map_eq_none_iff, lookup_del hpassword, lookup_del hcsrf,
    ← Option.not_isSome_iff_eq_none, lookup_formdataToJson_isSome_iff]
  simp only [hname, true_and]

/-- However many settings there are in a form. -/
theorem exists_makeSettings (form : Form) {s : SettingState}
    (h : InStep arith malloc mem tag s.cfg s.configJson) :
    ∃ s', makeSettings sha256 form s = some s' ∧
      InStep arith malloc mem tag s'.cfg s'.configJson := by
  induction form generalizing s with
  | nil => exact ⟨s, rfl, h⟩
  | cons field form ih =>
    obtain ⟨key, val⟩ := field
    obtain ⟨s', done, hset, hkept, -⟩ :=
      settled_datumApiConfigSet h sha256 key (zero_notMem_cString val)
    obtain ⟨s'', hmade, hkept'⟩ := ih hkept
    refine ⟨s'', ?_, hkept'⟩
    rw [makeSettings, hset, Option.bind_some, hmade]

variable (arith malloc mem) in
/-- What holds of a gateway in every run. -/
structure GatewayInv (g : Gateway) : Prop where
  file : Settable g.file
  inStep : ∃ tag, InStep arith malloc mem tag g.cfg g.configJson

/-- A form whose sender may change the configuration. -/
def Granted (sha256 : List UInt8 → List UInt8) (g : Gateway) (form : Form) (digestAuth : Bool) :
    Prop :=
  g.cfg.bool .apiModifyConf = true ∧
    datumApiCheckAdminPassword sha256 g.cfg (form.lookup (ascii "password"))
      (form.lookup (ascii "csrf")) digestAuth = .granted

/-- A posted form changes the document of a gateway. -/
def Modifies (sha256 : List UInt8 → List UInt8) (g : Gateway) (form : Form) : Prop :=
  (form.settings.bind fun settings => makeSettings sha256 settings g.settingState).any
    SettingState.modifiedConfig = true

/-- A granted form without checkboxes ends the process, and one that changes the document writes
    behind the buffer where the name of the file does not fit; else all is as before with other
    values. -/
theorem granted_cases (sha256 : List UInt8 → List UInt8)
    (posted : List (List UInt8 × List UInt8)) (digestAuth written : Bool) {g : Gateway}
    (h : GatewayInv arith malloc mem g)
    (hgranted : Granted sha256 g (datumApiFormdataToJson posted) digestAuth) :
    let form := datumApiFormdataToJson posted
    let result := datumApiConfigPost sha256 (some posted) digestAuth written g
    (result = none ∧
        (form.settings = none ∨ Modifies sha256 g form ∧ ¬NameFits g.filename)) ∨
      ∃ g' reply, result = some (g', reply) ∧ form.settings ≠ none ∧
        ¬(Modifies sha256 g form ∧ ¬NameFits g.filename) ∧ GatewayInv arith malloc mem g' ∧
        (Modifies sha256 g form → written = true → g'.file = g'.configJson) := by
  intro form result
  have hresult : result = (do
      let settings ← form.settings
      let s ← makeSettings sha256 settings g.settingState
      let written ←
        if s.modifiedConfig then datumApiJsonWrite g.filename written else some written
      let errors := configErrors s written
      return ({ g with
          cfg := s.cfg
          configJson := s.configJson
          file := if s.modifiedConfig && written then s.configJson else g.file },
        if errors ≠ [] then .errors errors
        else if s.needRestart then .restarting
        else .config)) := by
    simp only [result, form, datumApiConfigPost, hgranted.1, hgranted.2, Bool.not_true,
      Bool.false_eq_true, if_false]
  cases hsettings : form.settings with
  | none =>
    rw [hsettings] at hresult
    exact .inl ⟨hresult, .inl rfl⟩
  | some settings =>
    obtain ⟨tag, hkept⟩ := h.inStep
    obtain ⟨s, hmade, hdone⟩ := exists_makeSettings settings (s := g.settingState) hkept
    have hmodifies : Modifies sha256 g form ↔ s.modifiedConfig = true := by
      rw [Modifies, hsettings, Option.bind_some, hmade, Option.any_some]
    rw [hsettings, Option.bind_eq_bind, Option.bind_some, hmade, Option.bind_eq_bind,
      Option.bind_some] at hresult
    rw [hmodifies]
    have hinv (file : Json) (hfile : Settable file) : GatewayInv arith malloc mem
        { g with cfg := s.cfg, configJson := s.configJson, file := file } := ⟨hfile, tag, hdone⟩
    cases hmodified : s.modifiedConfig with
    | false =>
      rw [hmodified] at hresult
      exact .inr ⟨_, _, hresult, by simp, by simp, hinv _ h.file, by simp⟩
    | true =>
      rw [hmodified, if_pos rfl, datumApiJsonWrite] at hresult
      by_cases hfits : NameFits g.filename
      · rw [if_pos hfits] at hresult
        refine .inr ⟨_, _, hresult, by simp, fun hnot => hnot.2 hfits, hinv _ ?_, ?_⟩
        · split
          · exact hdone.settable
          · exact h.file
        · rintro - rfl
          rfl
      · rw [if_neg hfits] at hresult
        exact .inl ⟨hresult, .inr ⟨rfl, hfits⟩⟩

/-- A form that is not granted is answered with nothing changed. -/
theorem post_of_not_granted (sha256 : List UInt8 → List UInt8)
    (posted : List (List UInt8 × List UInt8)) (digestAuth written : Bool) {g : Gateway}
    (hnot : ¬Granted sha256 g (datumApiFormdataToJson posted) digestAuth) :
    ∃ reply, datumApiConfigPost sha256 (some posted) digestAuth written g = some (g, reply) := by
  cases hmodify : g.cfg.bool .apiModifyConf with
  | false => exact ⟨.forbidden, by simp [datumApiConfigPost, hmodify]⟩
  | true =>
    cases hcheck : datumApiCheckAdminPassword sha256 g.cfg
        ((datumApiFormdataToJson posted).lookup (ascii "password"))
        ((datumApiFormdataToJson posted).lookup (ascii "csrf")) digestAuth with
    | forbidden => exact ⟨.login .forbidden, by simp [datumApiConfigPost, hmodify, hcheck]⟩
    | unauthorized =>
      exact ⟨.login .unauthorized, by simp [datumApiConfigPost, hmodify, hcheck]⟩
    | granted => exact absurd ⟨hmodify, hcheck⟩ hnot

/-! ## Runs -/

/-- A gateway that starts. -/
theorem GatewayInv.start {filename : List UInt8} {file : Json} {g : Gateway}
    (hsettable : Settable file) (hstart : startGateway arith malloc mem filename file = some g) :
    GatewayInv arith malloc mem g := by
  rw [startGateway] at hstart
  split at hstart
  · next cfg hread =>
    cases hstart
    obtain ⟨-, hholds, hsound, -⟩ := datumReadConfig_eq_ok_iff.mp hread
    have hown : cfg.withFileTag (cfg.string .miningCoinbaseTagPrimary) = cfg :=
      Function.update_eq_self ..
    exact ⟨hsettable, _, hsettable, hown.symm ▸ hholds, hown.symm ▸ hsound, .inl rfl⟩
  · cases hstart

/-- Only the running tag changes when templates are activated. -/
theorem InStep.activate {cfg : GlobalConfig} {config : Json}
    (h : InStep arith malloc mem tag cfg config) :
    InStep arith malloc mem tag (activateTemplates cfg) config := by
  rw [activateTemplates]
  split
  · have hsame (newTag : List UInt8) :
        (cfg.setString .miningCoinbaseTagPrimary newTag).withFileTag tag = cfg.withFileTag tag :=
      Function.update_idem ..
    exact ⟨h.settable, (hsame _).symm ▸ h.holds, (hsame _).symm ▸ h.sound, .inr (by simp)⟩
  · exact h

theorem GatewayInv.step {g g' : Gateway} (h : GatewayInv arith malloc mem g) (event : GatewayEvent)
    (hstep : gatewayStep arith malloc mem sha256 event g = some g') :
    GatewayInv arith malloc mem g' := by
  cases event with
  | post posted digestAuth written =>
    obtain ⟨done, hpost, rfl⟩ := Option.map_eq_some_iff.mp hstep
    cases posted with
    | none =>
      cases hmodify : g.cfg.bool .apiModifyConf <;>
        simp only [datumApiConfigPost, hmodify, Bool.not_true, Bool.not_false, if_true,
          Bool.false_eq_true, if_false, Option.some.injEq] at hpost <;>
        exact hpost ▸ h
    | some posted =>
      by_cases hgranted : Granted sha256 g (datumApiFormdataToJson posted) digestAuth
      · rcases granted_cases sha256 posted digestAuth written h hgranted with
          ⟨hnone, -⟩ | ⟨g'', reply, hnew, -, -, hinv, -⟩
        · cases hnone.symm.trans hpost
        · cases hnew.symm.trans hpost
          exact hinv
      · obtain ⟨reply, hsame⟩ := post_of_not_granted sha256 posted digestAuth written hgranted
        cases hsame.symm.trans hpost
        exact h
  | activate =>
    cases hstep
    obtain ⟨tag, hkept⟩ := h.inStep
    exact ⟨h.file, tag, hkept.activate⟩
  | restart => exact GatewayInv.start h.file hstep

theorem GatewayInv.run {events : List GatewayEvent} {g g' : Gateway}
    (h : GatewayInv arith malloc mem g)
    (hrun : gatewayRun arith malloc mem sha256 events g = some g') :
    GatewayInv arith malloc mem g' := by
  induction events generalizing g with
  | nil =>
    cases hrun
    exact h
  | cons event events ih =>
    obtain ⟨g'', hstep, hrest⟩ := Option.bind_eq_some_iff.mp hrun
    exact ih (h.step event hstep) hrest

/-- In every run the bounds are kept, and where the file holds the document, a restart reads what
    the gateway runs with and accepts it, unless the settings took away what a gateway needs to
    start. -/
theorem datumReadConfig_of_run (arith : ShareArith α) (malloc : Nat → Option Nat)
    (mem : Nat → UInt8) (sha256 : List UInt8 → List UInt8) {filename : List UInt8} {file : Json}
    (hsettable : Settable file) {g₀ g : Gateway}
    (hstart : startGateway arith malloc mem filename file = some g₀)
    {events : List GatewayEvent}
    (hrun : gatewayRun arith malloc mem sha256 events g₀ = some g) :
    ∃ tag, (g.cfg.string .miningCoinbaseTagPrimary = tag ∨
        g.cfg.string .miningCoinbaseTagPrimary =
          (g.cfg.string .miningTemplateActivateTag).take 63) ∧
      SoundConfig (g.cfg.withFileTag tag) ∧
      (g.file = g.configJson →
        ∀ cfg, datumReadConfig arith malloc mem (some g.file) = .ok cfg ↔
          cfg = g.cfg.withFileTag tag ∧ Startable cfg) := by
  obtain ⟨tag, hkept⟩ := ((GatewayInv.start hsettable hstart).run hrun).inStep
  refine ⟨tag, hkept.runningTag, hkept.sound, fun hwritten cfg => ?_⟩
  rw [hwritten, datumReadConfig_eq_ok_iff]
  constructor
  · rintro ⟨-, hholds, -, hstartable⟩
    refine ⟨funext fun ptr => ?_, hstartable⟩
    -- What is read for an option is one value.
    obtain ⟨value, hread, hcfg⟩ := hholds ptr
    obtain ⟨value', hread', hrunning⟩ := hkept.holds ptr
    rw [hread] at hread'
    cases hread'
    exact hcfg.trans hrunning.symm
  · rintro ⟨rfl, hstartable⟩
    exact ⟨hkept.settable.object, hkept.holds, hkept.sound, hstartable⟩

/-- A short configuration. -/
def sampleFile : Json :=
  .object
    [("bitcoind", .object [("rpcurl", .string (ascii "http://localhost:8332")),
        ("rpcuser", .string (ascii "datum")), ("rpcpassword", .string (ascii "secret"))]),
      ("mining", .object [("pool_address", .string (ascii "bc1q"))]),
      ("api", .object [("admin_password", .string (ascii "admin")),
        ("modify_conf", .bool true)])]

theorem settable_sampleFile : Settable sampleFile where
  object := rfl
  sections := by
    intro category hmem j hget
    simp only [settingSections, List.mem_cons, List.not_mem_nil, or_false] at hmem
    rcases hmem with rfl | rfl | rfl | rfl <;> cases hget <;> rfl

/-- A hash that is not called. -/
def noHash (_ : List UInt8) : List UInt8 := List.replicate 32 0

/-- The gateway that starts with it. -/
def sampleGateway : Gateway :=
  (startGateway exactArith (fun _ => none) (fun _ => 0) (ascii "datum_gateway_config.json")
    sampleFile).get (by decide +kernel)

theorem startGateway_sampleFile :
    startGateway exactArith (fun _ => none) (fun _ => 0) (ascii "datum_gateway_config.json")
      sampleFile = some sampleGateway :=
  (Option.some_get _).symm

/-- The pool's host is emptied. -/
def noPoolHost : List (List UInt8 × List UInt8) :=
  [(ascii "password", ascii "admin"), (ascii "checkboxes", []), (ascii "datum_pool_host", [])]

/-- The gateway that goes on with it. -/
def sampleEmptied : Gateway :=
  (gatewayRun exactArith (fun _ => none) (fun _ => 0) noHash [.post (some noPoolHost) false true]
    sampleGateway).get (by decide +kernel)

/-- Its file is written, and refused at the next start: only a pool is to be mined with, and
    there is none. -/
theorem datumReadConfig_of_run_emptied :
    ¬∃ cfg, datumReadConfig exactArith (fun _ => none) (fun _ => 0) (some sampleEmptied.file) =
      .ok cfg := by
  rintro ⟨cfg, hok⟩
  obtain ⟨tag, -, -, hread⟩ :=
    datumReadConfig_of_run exactArith (fun _ => none) (fun _ => 0) noHash
    settable_sampleFile startGateway_sampleFile (Option.some_get _).symm
  have hwritten : sampleEmptied.file = sampleEmptied.configJson := by
    have hinv := GatewayInv.start settable_sampleFile startGateway_sampleFile
    have hgranted : Granted noHash sampleGateway (datumApiFormdataToJson noPoolHost) false :=
      ⟨by decide +kernel, by decide +kernel⟩
    have hmodifies : Modifies noHash sampleGateway (datumApiFormdataToJson noPoolHost) := by
      rw [Modifies]
      decide +kernel
    rcases granted_cases noHash noPoolHost false true hinv hgranted with
      ⟨hnone, -⟩ | ⟨g', reply, hpost, -, -, -, hfile⟩
    · exact absurd hnone (by decide +kernel)
    · have hrun : gatewayRun exactArith (fun _ => none) (fun _ => 0) noHash
          [.post (some noPoolHost) false true] sampleGateway = some g' := by
        rw [gatewayRun, gatewayStep, hpost]
        rfl
      obtain rfl : sampleEmptied = g' := Option.some.inj ((Option.some_get _).trans hrun)
      exact hfile hmodifies rfl
  obtain ⟨rfl, hstart⟩ := (hread hwritten cfg).mp hok
  have hnone : (sampleEmptied.cfg.withFileTag tag).string .datumPoolHost = [] := by
    rw [GlobalConfig.withFileTag, GlobalConfig.string_setString, if_neg (by decide)]
    decide +kernel
  have hon : (sampleEmptied.cfg.withFileTag tag).bool .datumPooledMiningOnly = true := by
    rw [GlobalConfig.withFileTag, GlobalConfig.bool_setString]
    decide +kernel
  exact Bool.noConfusion (hon.symm.trans (hstart.poolHost hnone))

/-- A form whose checkboxes are no UTF-8, from one who knows the password. -/
def brokenBoxes : List (List UInt8 × List UInt8) :=
  [(ascii "password", ascii "admin"), (ascii "checkboxes", [0xff])]

end

end ChirpGateway
