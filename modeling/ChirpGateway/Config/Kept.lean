import ChirpGateway.Config.Settings

/-!
# Settings and the document

A setting changes the running configuration and the document alike: what the document gives for
an option is what the gateway runs with, before and after every setting.
-/

namespace ChirpGateway

open Bytes Buffer

/-! ## What a change does to the items -/

/-- The sections that settings are kept in. -/
def settingSections : List String := ["bitcoind", "mining", "datum", "stratum"]

/-- A document that settings can be kept in: none of their sections is anything but an
    object. -/
structure Settable (config : Json) : Prop where
  object : config.isObject = true
  sections : ∀ category ∈ settingSections, ∀ j, config.objectGet category = some j →
    j.isObject = true

theorem exists_members {value : Json} (h : value.isObject = true) :
    ∃ members, value = .object members := by
  cases value with
  | object members => exact ⟨members, rfl⟩
  | _ => cases h

/-- A member that is set is the only one that changes. -/
theorem objectGet_objectSet {value : Json} (hobject : value.isObject = true)
    (name other : String) (member : Json) :
    (value.objectSet name member).objectGet other =
      if other = name then some member else value.objectGet other := by
  split
  · next h =>
    rw [h]
    exact Json.objectGet_objectSet_self (exists_members hobject) name member
  · next h => exact Json.objectGet_objectSet_of_ne value member h

theorem isObject_objectSet (value : Json) (name : String) (member : Json) :
    (value.objectSet name member).isObject = value.isObject := by
  cases value <;> rfl

theorem isObject_objectDel (value : Json) (name : String) :
    (value.objectDel name).isObject = value.isObject := by
  cases value <;> rfl

theorem objectGet_objectDel (value : Json) (name other : String) :
    (value.objectDel name).objectGet other =
      if other = name then none else value.objectGet other := by
  cases value with
  | object members =>
    show (members.filter _).lookup other = if other = name then none else members.lookup other
    induction members with
    | nil => simp
    | cons entry rest ih =>
      obtain ⟨key, member⟩ := entry
      rw [List.filter_cons]
      by_cases hkey : key = name
      · subst hkey
        simp only [ne_eq, not_true_eq_false, decide_false, Bool.false_eq_true, if_false]
        rw [ih, List.lookup_cons]
        split
        · rfl
        · next hother =>
          have hne : (other == key) = false := by simpa using hother
          rw [hne]
      · simp only [ne_eq, hkey, not_false_eq_true, decide_true, if_true]
        rw [List.lookup_cons, List.lookup_cons, ih]
        cases heq : other == key with
        | false => rfl
        | true =>
          have hother : other = key := by simpa using heq
          rw [if_neg fun h => hkey (hother.symm.trans h)]
          exact (if_neg fun h => hkey (hother.symm.trans h)).symm
  | _ => simp [Json.objectDel, Json.objectGet]

theorem givenItem_eq (config : Json) (ptr : ConfigPtr) :
    givenItem config ptr =
      (config.objectGet ptr.category).bind fun cat => cat.objectGet ptr.name := by
  rw [givenItem]
  cases config.objectGet ptr.category with
  | none => rfl
  | some cat =>
    cases cat with
    | object members => rfl
    | _ => rfl

theorem Settable.section_isObject {config : Json} (h : Settable config) {category : String}
    (hmem : category ∈ settingSections) :
    ((config.objectGet category).getD (.object [])).isObject = true := by
  cases hget : config.objectGet category with
  | none => rfl
  | some j => exact h.sections category hmem j hget

/-- What is found in the sections after a change of one of them. -/
theorem objectGet_modifyNew {config : Json} (h : Settable config) {category : String}
    (hmem : category ∈ settingSections) (key : String) (val : Json) (other name : String) :
    (((datumApiJsonModifyNew config category key val).objectGet other).bind fun cat =>
        cat.objectGet name) =
      if other = category ∧ name = key then some val
      else (config.objectGet other).bind fun cat => cat.objectGet name := by
  rw [datumApiJsonModifyNew, objectGet_objectSet h.object]
  by_cases hother : other = category
  · subst hother
    rw [if_pos rfl, Option.bind_some, objectGet_objectSet (h.section_isObject hmem)]
    by_cases hname : name = key
    · rw [if_pos hname, if_pos ⟨rfl, hname⟩]
    · rw [if_neg hname, if_neg fun h => hname h.2]
      cases config.objectGet other <;> rfl
  · rw [if_neg hother, if_neg fun h => hother h.1]

theorem Settable.modifyNew {config : Json} (h : Settable config) {category : String}
    (hmem : category ∈ settingSections) (key : String) (val : Json) :
    Settable (datumApiJsonModifyNew config category key val) where
  object := by rw [datumApiJsonModifyNew, isObject_objectSet, h.object]
  sections other hother j hj := by
    rw [datumApiJsonModifyNew, objectGet_objectSet h.object] at hj
    split at hj
    · cases hj
      rw [isObject_objectSet]
      exact h.section_isObject hmem
    · exact h.sections other hother j hj

/-! ## What the document gives -/

section

variable {α : Type} (arith : ShareArith α) (malloc : Nat → Option Nat) (mem : Nat → UInt8)

/-- The document gives every option the value it has. -/
def DocumentHolds (config : Json) (cfg : GlobalConfig) : Prop :=
  ∀ ptr, HoldsAt arith malloc mem config cfg ptr

variable {arith malloc mem}

/-- Only the option's own item matters. -/
theorem readOption_congr {config config' : Json} {ptr : ConfigPtr}
    (h : givenItem config' ptr = givenItem config ptr) (old : ptr.Value) :
    readOption arith malloc config' ptr old = readOption arith malloc config ptr old := by
  simp only [readOption, h]

/-- An option that is changed in the document and in the configuration. -/
theorem DocumentHolds.change {config config' : Json} {cfg : GlobalConfig}
    (h : DocumentHolds arith malloc mem config cfg) {ptr : ConfigPtr} {value : ptr.Value}
    (hother : ∀ other, other ≠ ptr → givenItem config' other = givenItem config other)
    (hread : readOption arith malloc config' ptr (GlobalConfig.zero mem ptr) = .ok value)
    (hadjusted : adjusted ptr value = value) :
    DocumentHolds arith malloc mem config' (Function.update cfg ptr value) := by
  intro other
  by_cases heq : other = ptr
  · subst heq
    exact ⟨value, hread, by rw [Function.update_self, hadjusted]⟩
  · obtain ⟨old, hold, hcfg⟩ := h other
    exact ⟨old, (readOption_congr (hother other heq) _).trans hold,
      (Function.update_of_ne heq ..).trans hcfg⟩

/-- What is not an item of an option does not matter. -/
theorem DocumentHolds.congr {config config' : Json} {cfg : GlobalConfig}
    (h : DocumentHolds arith malloc mem config cfg)
    (hsame : ∀ ptr, givenItem config' ptr = givenItem config ptr) :
    DocumentHolds arith malloc mem config' cfg := by
  intro ptr
  obtain ⟨value, hvalue, hcfg⟩ := h ptr
  exact ⟨value, (readOption_congr (hsame ptr) _).trans hvalue, hcfg⟩

/-- A change of the item of an option. -/
theorem DocumentHolds.modifyNew {config : Json} {cfg : GlobalConfig}
    (h : DocumentHolds arith malloc mem config cfg) (hsettable : Settable config) (ptr : ConfigPtr)
    (hmem : ptr.category ∈ settingSections) {val : Json} {value : ptr.Value}
    (hnull : val.isNull = false)
    (hparse : datumConfigParseValue arith malloc ptr (GlobalConfig.zero mem ptr) val = .ok value)
    (hadjusted : adjusted ptr value = value) :
    DocumentHolds arith malloc mem (datumApiJsonModifyNew config ptr.category ptr.name val)
      (Function.update cfg ptr value) := by
  refine h.change (fun other hother => ?_) ?_ hadjusted
  · rw [givenItem_eq, givenItem_eq, objectGet_modifyNew hsettable hmem, if_neg]
    exact fun hplace => hother (place_injective hplace.1 hplace.2)
  · have hitem :
        givenItem (datumApiJsonModifyNew config ptr.category ptr.name val) ptr = some val := by
      rw [givenItem_eq, objectGet_modifyNew hsettable hmem, if_pos ⟨rfl, rfl⟩]
    simp only [readOption, hitem, Option.getD_some, hnull, hparse, Bool.false_eq_true, if_false]

/-- A change of a member that no option is read from. -/
theorem DocumentHolds.modifyOther {config : Json} {cfg : GlobalConfig}
    (h : DocumentHolds arith malloc mem config cfg) (hsettable : Settable config)
    {category key : String}
    (hmem : category ∈ settingSections) (hnone : ∀ ptr : ConfigPtr, ptr.name ≠ key)
    (val : Json) :
    DocumentHolds arith malloc mem (datumApiJsonModifyNew config category key val) cfg := by
  refine h.congr fun ptr => ?_
  rw [givenItem_eq, givenItem_eq, objectGet_modifyNew hsettable hmem, if_neg]
  exact fun hplace => hnone ptr hplace.2

/-! ## What settings keep -/

namespace GlobalConfig

@[simp] theorem bool_setBool (cfg : GlobalConfig) (field other : BoolField) (value : Bool) :
    (cfg.setBool field value).bool other = if other = field then value else cfg.bool other := by
  by_cases h : other = field
  · subst h
    rw [if_pos rfl]
    exact Function.update_self ..
  · rw [if_neg h]
    exact Function.update_of_ne (fun heq => h (ConfigPtr.bool.inj heq)) ..

@[simp] theorem string_setString (cfg : GlobalConfig) (field other : StringField)
    (value : List UInt8) :
    (cfg.setString field value).string other =
      if other = field then value else cfg.string other := by
  by_cases h : other = field
  · subst h
    rw [if_pos rfl]
    exact Function.update_self ..
  · rw [if_neg h]
    exact Function.update_of_ne (fun heq => h (ConfigPtr.string.inj heq)) ..

@[simp] theorem string_setBool (cfg : GlobalConfig) (field : BoolField) (value : Bool)
    (other : StringField) : (cfg.setBool field value).string other = cfg.string other := rfl

@[simp] theorem bool_setString (cfg : GlobalConfig) (field : StringField) (value : List UInt8)
    (other : BoolField) : (cfg.setString field value).bool other = cfg.bool other := rfl

/-- The configuration with the primary tag of the document, which the running gateway replaces
    once its templates are activated. -/
def withFileTag (cfg : GlobalConfig) (tag : List UInt8) : GlobalConfig :=
  cfg.setString .miningCoinbaseTagPrimary tag

theorem string_withFileTag (cfg : GlobalConfig) (tag : List UInt8) :
    (cfg.withFileTag tag).string .miningCoinbaseTagPrimary = tag := by
  rw [withFileTag, string_setString, if_pos rfl]

theorem withFileTag_update (cfg : GlobalConfig) (tag : List UInt8) {ptr : ConfigPtr}
    (hptr : ptr ≠ .string .miningCoinbaseTagPrimary) (value : ptr.Value) :
    withFileTag (Function.update cfg ptr value) tag =
      Function.update (cfg.withFileTag tag) ptr value :=
  Function.update_comm hptr ..

end GlobalConfig

/-- The values that the bounds do not speak of. -/
theorem SoundConfig.congr {cfg cfg' : GlobalConfig} (h : SoundConfig cfg)
    (hint : ∀ field, field ≠ .coinbaseUniqueId → field ≠ .datumPoolPort →
      cfg'.int field = cfg.int field)
    (hchirp : cfg'.bool .miningBlake2bChirp = cfg.bool .miningBlake2bChirp)
    (hlotto : cfg'.bool .miningBlake2bPersonalLotto = cfg.bool .miningBlake2bPersonalLotto)
    (hprimary : cfg'.string .miningCoinbaseTagPrimary = cfg.string .miningCoinbaseTagPrimary)
    (hsecondary : (cfg'.string .miningCoinbaseTagSecondary).length ≤ 60) : SoundConfig cfg' where
  workUpdate := by rw [hint _ (by decide) (by decide)]; exact h.workUpdate
  threads := by rw [hint _ (by decide) (by decide)]; exact h.threads
  clientsPerThread := by rw [hint _ (by decide) (by decide)]; exact h.clientsPerThread
  primaryTag := by rw [hprimary]; exact h.primaryTag
  secondaryTag := hsecondary
  targetShares := by rw [hint _ (by decide) (by decide)]; exact h.targetShares
  quickdiffCount := by rw [hint _ (by decide) (by decide)]; exact h.quickdiffCount
  quickdiffDelta := by rw [hint _ (by decide) (by decide)]; exact h.quickdiffDelta
  vardiffMin := by rw [hint _ (by decide) (by decide)]; exact h.vardiffMin
  places := by
    rw [hint .stratumV1MaxClientsPerThread (by decide) (by decide),
      hint .stratumV1MaxThreads (by decide) (by decide)]
    exact h.places
  clients := by
    rw [hint .stratumV1MaxClientsPerThread (by decide) (by decide),
      hint .stratumV1MaxThreads (by decide) (by decide),
      hint .stratumV1MaxClients (by decide) (by decide)]
    exact h.clients
  shareStale := by rw [hint _ (by decide) (by decide)]; exact h.shareStale
  timeout := by
    rw [hint .bitcoindWorkUpdateSeconds (by decide) (by decide),
      hint .datumProtocolGlobalTimeout (by decide) (by decide)]
    exact h.timeout
  timeoutMs := by rw [hint _ (by decide) (by decide)]; exact h.timeoutMs
  supplierBps := by rw [hint _ (by decide) (by decide)]; exact h.supplierBps
  poolBps := by rw [hint _ (by decide) (by decide)]; exact h.poolBps
  feeBps := by rw [hint _ (by decide) (by decide)]; exact h.feeBps
  templateBps := by
    rw [hint .miningTemplateSupplierBps (by decide) (by decide),
      hint .miningTemplatePoolBps (by decide) (by decide)]
    exact h.templateBps
  chirpBps := by
    rw [hint .miningTemplateSupplierBps (by decide) (by decide),
      hint .miningChirpFeeBps (by decide) (by decide)]
    exact h.chirpBps
  fastRecycle := by rw [hint _ (by decide) (by decide)]; exact h.fastRecycle
  modes := by rw [hchirp, hlotto]; exact h.modes

variable (arith malloc mem) in
/-- What holds of a running configuration and its document while settings are made: `tag` is
    the document's primary tag, which the gateway runs with until its templates are activated. -/
structure InStep (tag : List UInt8) (cfg : GlobalConfig) (config : Json) : Prop where
  settable : Settable config
  holds : DocumentHolds arith malloc mem config (cfg.withFileTag tag)
  sound : SoundConfig (cfg.withFileTag tag)
  runningTag : cfg.string .miningCoinbaseTagPrimary = tag ∨
    cfg.string .miningCoinbaseTagPrimary = (cfg.string .miningTemplateActivateTag).take 63

namespace InStep

variable {tag : List UInt8} {cfg : GlobalConfig} {config : Json}

/-- A flag that the bounds do not speak of is changed. -/
theorem setBool (h : InStep arith malloc mem tag cfg config) (field : BoolField)
    (hmem : field.item.category ∈ settingSections) (hchirp : field ≠ .miningBlake2bChirp)
    (hlotto : field ≠ .miningBlake2bPersonalLotto) (value : Bool) :
    InStep arith malloc mem tag (cfg.setBool field value)
      (datumApiJsonModifyNew config field.item.category field.item.name (.bool value)) where
  settable := h.settable.modifyNew hmem ..
  holds := by
    rw [GlobalConfig.setBool, GlobalConfig.withFileTag_update _ _ (by simp)]
    exact h.holds.modifyNew h.settable (.bool field) hmem rfl rfl rfl
  sound := by
    refine h.sound.congr (fun _ _ _ => rfl) ?_ ?_ rfl h.sound.secondaryTag
    · exact (GlobalConfig.bool_setBool ..).trans (if_neg (Ne.symm hchirp))
    · exact (GlobalConfig.bool_setBool ..).trans (if_neg (Ne.symm hlotto))
  runningTag := h.runningTag

/-- A number that the bounds do not speak of is changed. -/
theorem setInt (h : InStep arith malloc mem tag cfg config) (field : IntField)
    (hmem : field.item.category ∈ settingSections)
    (hfield : field = .coinbaseUniqueId ∨ field = .datumPoolPort) {value : Int}
    (hlow : 0 ≤ value) (hhigh : value ≤ 65535) :
    InStep arith malloc mem tag (cfg.setInt field value)
      (datumApiJsonModifyNew config field.item.category field.item.name (.integer value)) where
  settable := h.settable.modifyNew hmem ..
  holds := by
    rw [GlobalConfig.setInt, GlobalConfig.withFileTag_update _ _ (by simp)]
    refine h.holds.modifyNew h.settable (.int field) hmem rfl ?_ ?_
    · exact if_neg (by omega)
    · rcases hfield with rfl | rfl <;> rfl
  sound := by
    refine h.sound.congr (fun other hid hport => ?_) rfl rfl rfl h.sound.secondaryTag
    refine (GlobalConfig.int_setInt ..).trans (if_neg ?_)
    rcases hfield with rfl | rfl
    · exact hid
    · exact hport
  runningTag := h.runningTag

/-- A text that fits its field is changed, but not a tag. -/
theorem setString (h : InStep arith malloc mem tag cfg config) (field : StringField)
    (hmem : field.item.category ∈ settingSections)
    (hprimary : field ≠ .miningCoinbaseTagPrimary)
    (hsecondary : field ≠ .miningCoinbaseTagSecondary)
    (hactivate : field ≠ .miningTemplateActivateTag)
    {value : List UInt8} (hzero : 0 ∉ value) (hfits : value.length < field.size) :
    InStep arith malloc mem tag (cfg.setString field value)
      (datumApiJsonModifyNew config field.item.category field.item.name (.string value)) where
  settable := h.settable.modifyNew hmem ..
  holds := by
    rw [GlobalConfig.setString, GlobalConfig.withFileTag_update _ _ (by simpa using hprimary)]
    refine h.holds.modifyNew h.settable (.string field) hmem rfl ?_ rfl
    rw [datumConfigParseValue, cString_eq_self hzero, if_neg (not_le.mpr hfits)]
  sound := by
    refine h.sound.congr (fun _ _ _ => rfl) rfl rfl ?_ ?_
    · rw [GlobalConfig.string_withFileTag, GlobalConfig.string_withFileTag]
    · have hsound := h.sound.secondaryTag
      rw [GlobalConfig.withFileTag, GlobalConfig.string_setString, if_neg (by decide)] at hsound ⊢
      rw [GlobalConfig.string_setString, if_neg (Ne.symm hsecondary)]
      exact hsound
  runningTag := by
    rw [GlobalConfig.string_setString, GlobalConfig.string_setString, if_neg (Ne.symm hprimary),
      if_neg (Ne.symm hactivate)]
    exact h.runningTag

/-- The secondary tag is changed. -/
theorem setSecondaryTag (h : InStep arith malloc mem tag cfg config) {value : List UInt8}
    (hzero : 0 ∉ value) (hfits : value.length ≤ 60) :
    InStep arith malloc mem tag (cfg.setString .miningCoinbaseTagSecondary value)
      (datumApiJsonModifyNew config "mining" "coinbase_tag_secondary" (.string value)) where
  settable := h.settable.modifyNew (by decide) ..
  holds := by
    rw [GlobalConfig.setString, GlobalConfig.withFileTag_update _ _ (by decide)]
    refine h.holds.modifyNew h.settable (.string .miningCoinbaseTagSecondary) (by decide) rfl ?_ rfl
    rw [datumConfigParseValue, cString_eq_self hzero, if_neg]
    exact not_le.mpr (Nat.lt_of_le_of_lt hfits (by decide))
  sound := by
    refine h.sound.congr (fun _ _ _ => rfl) rfl rfl ?_ ?_
    · rw [GlobalConfig.string_withFileTag, GlobalConfig.string_withFileTag]
    · rw [GlobalConfig.withFileTag, GlobalConfig.string_setString, if_neg (by decide),
        GlobalConfig.string_setString, if_pos rfl]
      exact hfits
  runningTag := h.runningTag

/-- The time between updates of the work is changed, within the timeout of the protocol. -/
theorem setWorkUpdate (h : InStep arith malloc mem tag cfg config) {value : Int}
    (hlow : 5 ≤ value)
    (hhigh : value ≤ 120) (htimeout : value + 5 ≤ cfg.int .datumProtocolGlobalTimeout) :
    InStep arith malloc mem tag (cfg.setInt .bitcoindWorkUpdateSeconds value)
      (datumApiJsonModifyNew config "bitcoind" "work_update_seconds" (.integer value)) where
  settable := h.settable.modifyNew (by decide) ..
  holds := by
    rw [GlobalConfig.setInt, GlobalConfig.withFileTag_update _ _ (by decide)]
    refine h.holds.modifyNew h.settable (.int .bitcoindWorkUpdateSeconds) (by decide) rfl ?_ ?_
    · exact if_neg (by omega)
    · show max 5 (min 120 value) = value
      omega
  sound := { h.sound with
    workUpdate := ⟨hlow, hhigh⟩
    timeout := htimeout }
  runningTag := h.runningTag

/-- The timeout of the protocol is raised with it. -/
theorem setWorkUpdateTimeout (h : InStep arith malloc mem tag cfg config) {value : Int}
    (hlow : 5 ≤ value) (hhigh : value ≤ 120) :
    InStep arith malloc mem tag
      ((cfg.setInt .bitcoindWorkUpdateSeconds value).setInt .datumProtocolGlobalTimeout (value + 5))
      (datumApiJsonModifyNew
        (datumApiJsonModifyNew config "bitcoind" "work_update_seconds" (.integer value)) "datum"
        "protocol_global_timeout" (.integer (value + 5))) where
  settable := (h.settable.modifyNew (by decide) ..).modifyNew (by decide) ..
  holds := by
    rw [GlobalConfig.setInt, GlobalConfig.withFileTag_update _ _ (by decide), GlobalConfig.setInt,
      GlobalConfig.withFileTag_update _ _ (by decide)]
    have hparse : datumConfigParseValue arith malloc (.int .bitcoindWorkUpdateSeconds)
        (GlobalConfig.zero mem (.int .bitcoindWorkUpdateSeconds)) (.integer value) = .ok value :=
      if_neg (by omega)
    have hwork := h.holds.modifyNew h.settable (.int .bitcoindWorkUpdateSeconds) (by decide) rfl
      hparse (show max 5 (min 120 value) = value by omega)
    exact hwork.modifyNew (h.settable.modifyNew (by decide) ..) (.int .datumProtocolGlobalTimeout)
      (by decide) rfl (if_neg (by omega)) rfl
  sound := { h.sound with
    workUpdate := ⟨hlow, hhigh⟩
    timeout := Int.le_refl _
    timeoutMs := by
      show (value + 5) * 1000 < 2 ^ 31
      omega }
  runningTag := h.runningTag

/-- A member that no option is read from is changed. -/
theorem modifyOther (h : InStep arith malloc mem tag cfg config) {category key : String}
    (hmem : category ∈ settingSections) (hnone : ∀ ptr : ConfigPtr, ptr.name ≠ key)
    (val : Json) :
    InStep arith malloc mem tag cfg (datumApiJsonModifyNew config category key val) :=
  ⟨h.settable.modifyNew hmem .., h.holds.modifyOther h.settable hmem hnone val, h.sound,
    h.runningTag⟩

end InStep

end

end ChirpGateway
