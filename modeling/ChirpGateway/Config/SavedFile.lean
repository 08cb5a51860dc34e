import ChirpGateway.Address.ScriptAddress
import ChirpGateway.Config.Kept

/-!
# Settings over the life of a gateway

Every setting that is made keeps the document in step with the running configuration and writes
no field past its end, and one that is refused changes nothing. So over any sequence of
settings, writes of the file that fail and restarts, a file that was written is read as the
configuration that was running, and is accepted unless the settings took away what a gateway
needs to start.
-/

namespace ChirpGateway

open Bytes Buffer

section

variable {α : Type} {arith : ShareArith α} {malloc : Nat → Option Nat} {mem : Nat → UInt8}
  {tag : List UInt8}

variable (arith malloc mem tag) in
/-- How a setting ends: the document still in step, and on an error nothing changed but the
    errors. -/
def Settled (s : SettingState) (outcome : Option (SettingState × Bool)) : Prop :=
  ∃ s' done, outcome = some (s', done) ∧ InStep arith malloc mem tag s'.cfg s'.configJson ∧
    (done = false → ∃ error, s' = { s with errors := s.errors ++ [error] })

variable {s : SettingState}

theorem Settled.unchanged (h : InStep arith malloc mem tag s.cfg s.configJson) :
    Settled arith malloc mem tag s s.unchanged :=
  ⟨s, true, rfl, h, fun hfalse => Bool.noConfusion hfalse⟩

theorem Settled.refused (h : InStep arith malloc mem tag s.cfg s.configJson) (error : List UInt8) :
    Settled arith malloc mem tag s (s.refused error) :=
  ⟨_, false, rfl, h, fun _ => ⟨error, rfl⟩⟩

theorem Settled.changed {cfg : GlobalConfig} {config : Json}
    (h : InStep arith malloc mem tag cfg config) (restart : Bool) :
    Settled arith malloc mem tag s (s.changed cfg config restart) :=
  ⟨_, true, rfl, h, fun hfalse => Bool.noConfusion hfalse⟩

theorem Settled.ite {condition : Prop} [Decidable condition]
    {outcome outcome' : Option (SettingState × Bool)} (h : Settled arith malloc mem tag s outcome)
    (h' : Settled arith malloc mem tag s outcome') :
    Settled arith malloc mem tag s (if condition then outcome else outcome') := by
  split
  · exact h
  · exact h'

/-- A copy that fits. -/
theorem strcpy_eq {cfg : GlobalConfig} {field : StringField} {val : List UInt8}
    (h : val.length < field.size) : cfg.strcpy field val = some (cfg.setString field val) :=
  if_pos h

theorem settled_setBoolOption (h : InStep arith malloc mem tag s.cfg s.configJson)
    {field : BoolField} (hmem : field.item.category ∈ settingSections)
    (hchirp : field ≠ .miningBlake2bChirp) (hlotto : field ≠ .miningBlake2bPersonalLotto)
    (error val : List UInt8) :
    Settled arith malloc mem tag s
      (setBoolOption field field.item.category field.item.name error val s) := by
  rw [setBoolOption]
  cases datumStrToBoolStrict val with
  | none => exact Settled.refused h error
  | some valBool =>
    simp only
    split
    · exact Settled.unchanged h
    · exact Settled.changed (h.setBool field hmem hchirp hlotto valBool) false

theorem settled_setIntOption (h : InStep arith malloc mem tag s.cfg s.configJson)
    {field : IntField} (hmem : field.item.category ∈ settingSections)
    (hfield : field = .coinbaseUniqueId ∨ field = .datumPoolPort) {low high : Int}
    (hlow : 0 ≤ low)
    (hhigh : high ≤ 65535) (error : List UInt8) (restart : Bool) (val : List UInt8) :
    Settled arith malloc mem tag s
      (setIntOption field field.item.category field.item.name low high error restart val s) := by
  simp only [setIntOption]
  split
  · exact Settled.unchanged h
  · split
    · exact Settled.refused h error
    · next hrange =>
      simp only [gt_iff_lt, Bool.or_eq_true, decide_eq_true_eq, not_or, not_lt] at hrange
      exact Settled.changed (h.setInt field hmem hfield (by omega) (by omega)) restart

theorem settled_setStringOption (h : InStep arith malloc mem tag s.cfg s.configJson)
    {field : StringField} (hmem : field.item.category ∈ settingSections)
    (hprimary : field ≠ .miningCoinbaseTagPrimary)
    (hsecondary : field ≠ .miningCoinbaseTagSecondary)
    (hactivate : field ≠ .miningTemplateActivateTag)
    {limit : Nat} (hlimit : limit < field.size)
    (error : List UInt8) (restart : Bool) {val : List UInt8} (hzero : 0 ∉ val) :
    Settled arith malloc mem tag s
      (setStringOption field field.item.category field.item.name limit error restart val s) := by
  rw [setStringOption]
  split
  · exact Settled.unchanged h
  · split
    · exact Settled.refused h error
    · next hlong =>
      have hfits : val.length < field.size := Nat.lt_of_le_of_lt (not_lt.mp hlong) hlimit
      rw [strcpy_eq hfits]
      exact Settled.changed (h.setString field hmem hprimary hsecondary hactivate hzero hfits)
        restart

theorem secondaryTagLimit_le (cfg : GlobalConfig) : secondaryTagLimit cfg ≤ 60 := by
  simp only [secondaryTagLimit]
  split <;> omega

theorem settled_setSecondaryTag (h : InStep arith malloc mem tag s.cfg s.configJson)
    (error : List UInt8) {val : List UInt8} (hzero : 0 ∉ val) :
    Settled arith malloc mem tag s
      (setStringOption .miningCoinbaseTagSecondary "mining" "coinbase_tag_secondary"
        (secondaryTagLimit s.cfg) error false val s) := by
  rw [setStringOption]
  split
  · exact Settled.unchanged h
  · split
    · exact Settled.refused h error
    · next hlong =>
      have hshort : val.length ≤ 60 := (not_lt.mp hlong).trans (secondaryTagLimit_le s.cfg)
      rw [strcpy_eq (Nat.lt_of_le_of_lt hshort (by decide))]
      exact Settled.changed (h.setSecondaryTag hzero hshort) false

theorem length_of_bech32Decode {input hrp : List UInt8} {enc : Bech32Encoding} {data : List Nat}
    (h : bech32Decode input = some (enc, hrp, data)) : input.length ≤ 90 := by
  by_contra hlong
  have hrange : (decide (input.length < 8) || decide (input.length > 90)) = true := by
    simpa using Or.inr (not_le.mp hlong)
  simp only [bech32Decode, hrange, if_true] at h
  cases h

theorem length_of_b58enc {b58sz : Nat} {data text : List UInt8}
    (h : b58enc b58sz data = some text) :
    text.length < b58sz := by
  simp only [b58enc] at h
  split at h
  · cases h
  · next hroom =>
    cases h
    simpa using hroom

/-- An address that is accepted fits its field. -/
theorem length_of_addr2OutputScript {sha256 : List UInt8 → List UInt8} {addr script : List UInt8}
    (h : addr2OutputScript sha256 addr = some script) : addr.length < 255 := by
  cases hbegins : (ascii "bc").isPrefixOf addr || (ascii "tb").isPrefixOf addr with
  | true =>
    obtain ⟨hrp, witver, witprog, hdecode, -⟩ := segwit_of_addr2OutputScript h hbegins
    obtain ⟨enc, values, hbech, -⟩ := segwitAddrDecode_eq_some_iff.mp hdecode
    have hshort := length_of_bech32Decode hbech
    omega
  | false =>
    rw [addr2OutputScript] at h
    split at h
    · cases h
    · rw [hbegins, if_neg Bool.false_ne_true] at h
      obtain ⟨version, hash, -, htobin, hleading, -⟩ := blkmkAddressToScript_iff.mp h
      exact length_of_b58enc (b58enc_of_b58tobin htobin hleading)

theorem settled_setMiningPoolAddress (h : InStep arith malloc mem tag s.cfg s.configJson)
    (sha256 : List UInt8 → List UInt8) {val : List UInt8} (hzero : 0 ∉ val) :
    Settled arith malloc mem tag s (setMiningPoolAddress sha256 val s) := by
  rw [setMiningPoolAddress]
  split
  · exact Settled.unchanged h
  · split
    · exact Settled.refused h _
    · next hvalid =>
      obtain ⟨script, hscript⟩ : ∃ script, addr2OutputScript sha256 val = some script := by
        simpa [Option.ne_none_iff_exists'] using hvalid
      have hfits : val.length < StringField.miningPoolAddress.size :=
        Nat.lt_succ_of_lt (length_of_addr2OutputScript hscript)
      rw [strcpy_eq hfits]
      have hset := h.setString .miningPoolAddress (by decide) (by decide) (by decide)
        (by decide) hzero hfits
      exact Settled.changed hset false

theorem settled_setMiningPowAlgorithm (h : InStep arith malloc mem tag s.cfg s.configJson)
    (val : List UInt8) : Settled arith malloc mem tag s (setMiningPowAlgorithm val s) := by
  rw [setMiningPowAlgorithm]
  split
  · exact Settled.refused h _
  · next hknown =>
    split
    · exact Settled.unchanged h
    · have hval : val = ascii "auto" ∨ val = ascii "blake2b" ∨ val = ascii "sha256d" := by
        simp only [Bool.and_eq_true, decide_eq_true_eq] at hknown
        tauto
      have hfits : 0 ∉ val ∧ val.length < StringField.miningPowAlgorithm.size := by
        rcases hval with rfl | rfl | rfl <;> decide
      rw [strcpy_eq hfits.2]
      have hset := h.setString .miningPowAlgorithm (by decide) (by decide) (by decide)
        (by decide) hfits.1 hfits.2
      exact Settled.changed hset true

theorem settled_setWorkUpdateSeconds (h : InStep arith malloc mem tag s.cfg s.configJson)
    (val : List UInt8) : Settled arith malloc mem tag s (setWorkUpdateSeconds val s) := by
  simp only [setWorkUpdateSeconds]
  split
  · exact Settled.unchanged h
  · split
    · exact Settled.refused h _
    · next hrange =>
      simp only [gt_iff_lt, Bool.or_eq_true, decide_eq_true_eq, not_or, not_lt] at hrange
      simp only [GlobalConfig.int_setInt, if_true, reduceCtorEq, if_false]
      split
      · exact Settled.changed (h.setWorkUpdateTimeout hrange.2 hrange.1) true
      · exact Settled.changed (h.setWorkUpdate hrange.2 hrange.1 (by omega)) true

theorem settled_setUsernameBehaviour (h : InStep arith malloc mem tag s.cfg s.configJson)
    (val : List UInt8) : Settled arith malloc mem tag s (setUsernameBehaviour val s) := by
  have hfull (value : Bool) := h.setBool .datumPoolPassFullUsers (by decide) (by decide)
    (by decide) value
  have hboth (value : Bool) := (hfull false).setBool .datumPoolPassWorkers (by decide)
    (by decide) (by decide) value
  simp only [setUsernameBehaviour]
  split
  · split
    · exact Settled.unchanged h
    · exact Settled.changed (hfull true) false
  · split
    · split
      · exact Settled.unchanged h
      · exact Settled.changed (hboth true) false
    · split
      · split
        · exact Settled.unchanged h
        · exact Settled.changed (hboth false) false
      · exact Settled.refused h _

/-- Where a host is put away. -/
theorem name_ne_pool_host_old (ptr : ConfigPtr) : ptr.name ≠ "pool_host(old)" := by
  have hall : ∀ ptr ∈ datumConfigOptions, ptr.name ≠ "pool_host(old)" := by decide +kernel
  exact hall ptr (mem_datumConfigOptions ptr)

theorem settled_setDatumPoolHost (h : InStep arith malloc mem tag s.cfg s.configJson)
    {val : List UInt8} (hzero : 0 ∉ val) :
    Settled arith malloc mem tag s (setDatumPoolHost val s) := by
  simp only [setDatumPoolHost]
  split
  · exact Settled.unchanged h
  · split
    · exact Settled.refused h _
    · next hlong =>
      split
      · have hfits : val.length < StringField.datumPoolHost.size := by
          rw [StringField.size]
          omega
        rw [strcpy_eq hfits]
        exact Settled.changed
          (h.setString .datumPoolHost (by decide) (by decide) (by decide) (by decide) hzero hfits)
            true
      · have hput := h.modifyOther (show "datum" ∈ settingSections by decide)
          name_ne_pool_host_old
          (.string val)
        split <;> split
        · exact Settled.changed hput false
        · exact Settled.changed h false
        · exact Settled.changed hput false
        · exact Settled.changed h false

/-- Without its item the pool's host is the default. -/
theorem InStep.defaultPoolHost {cfg : GlobalConfig} {config config' : Json}
    (h : InStep arith malloc mem tag cfg config) (hsettable : Settable config')
    (hother : ∀ ptr, ptr ≠ .string .datumPoolHost →
      givenItem config' ptr = givenItem config ptr)
    (hnone : givenItem config' (.string .datumPoolHost) = none) :
    InStep arith malloc mem tag
      (cfg.setString .datumPoolHost StringField.datumPoolHost.item.default) config' where
  settable := hsettable
  holds := by
    rw [GlobalConfig.setString, GlobalConfig.withFileTag_update _ _ (by decide)]
    refine h.holds.change hother ?_ rfl
    have hdefault : (cString StringField.datumPoolHost.item.default).take
        (StringField.datumPoolHost.size - 1) = StringField.datumPoolHost.item.default := by decide
    simp only [readOption, hnone, Option.getD_none]
    exact congrArg Except.ok hdefault
  sound := h.sound.congr (fun _ _ _ => rfl) rfl rfl rfl h.sound.secondaryTag
  runningTag := h.runningTag

/-- The host is taken out of the document. -/
theorem InStep.deletePoolHost {cfg : GlobalConfig} {config : Json}
    (h : InStep arith malloc mem tag cfg config) :
    InStep arith malloc mem tag
      (cfg.setString .datumPoolHost StringField.datumPoolHost.item.default)
      (match config.objectGet "datum" with
        | some j => config.objectSet "datum" (j.objectDel "pool_host")
        | none => config) := by
  have hget (ptr : ConfigPtr) (hptr : ptr ≠ .string .datumPoolHost) :
      ¬(ptr.category = "datum" ∧ ptr.name = "pool_host") :=
    fun hplace => hptr (place_injective hplace.1 hplace.2)
  cases hdatum : config.objectGet "datum" with
  | none =>
    refine h.defaultPoolHost h.settable (fun _ _ => rfl) ?_
    rw [givenItem_eq]
    show (config.objectGet "datum").bind _ = none
    rw [hdatum, Option.bind_none]
  | some j =>
    simp only
    have hfound (other name : String) :
        (((config.objectSet "datum" (j.objectDel "pool_host")).objectGet other).bind
            fun cat => cat.objectGet name) =
          if other = "datum" ∧ name = "pool_host" then none
          else (config.objectGet other).bind fun cat => cat.objectGet name := by
      rw [objectGet_objectSet h.settable.object]
      by_cases hother : other = "datum"
      · subst hother
        rw [if_pos rfl, Option.bind_some, objectGet_objectDel, hdatum, Option.bind_some]
        by_cases hname : name = "pool_host"
        · rw [if_pos hname, if_pos ⟨rfl, hname⟩]
        · rw [if_neg hname, if_neg fun hboth => hname hboth.2]
      · rw [if_neg hother, if_neg fun hboth => hother hboth.1]
    refine h.defaultPoolHost ⟨?_, fun category hmem other hget => ?_⟩ (fun ptr hptr => ?_) ?_
    · rw [isObject_objectSet, h.settable.object]
    · rw [objectGet_objectSet h.settable.object] at hget
      split at hget
      · cases hget
        rw [isObject_objectDel]
        exact h.settable.sections "datum" (by decide) j hdatum
      · exact h.settable.sections category hmem other hget
    · rw [givenItem_eq, givenItem_eq, hfound, if_neg (hget ptr hptr)]
    · rw [givenItem_eq, hfound, if_pos ⟨rfl, rfl⟩]

/-- A host is there again, and it is the only thing that changes. -/
theorem wantDatumPoolHost_inStep {cfg : GlobalConfig} {config : Json}
    (h : InStep arith malloc mem tag cfg config) :
    ∃ done, wantDatumPoolHost cfg config = some done ∧
      InStep arith malloc mem tag done.1 done.2 := by
  have hdefault : StringField.datumPoolHost.item.default.length <
      StringField.datumPoolHost.size := by decide
  simp only [wantDatumPoolHost, strcpy_eq hdefault, Option.map_some]
  split
  · exact ⟨_, rfl, h⟩
  · split
    · next text _ =>
      split
      · next hshort =>
        have hfits : (cString text).length < StringField.datumPoolHost.size :=
          Nat.lt_of_le_of_lt ((List.takeWhile_sublist _).length_le.trans hshort) (by decide)
        rw [strcpy_eq hfits]
        refine ⟨_, rfl, ?_⟩
        simp only [GlobalConfig.string_setString, if_true]
        exact h.setString .datumPoolHost (by decide) (by decide) (by decide) (by decide)
          (zero_notMem_cString text) hfits
      · exact ⟨_, rfl, h.deletePoolHost⟩
    · exact ⟨_, rfl, h.deletePoolHost⟩

/-- The flag beside it does not matter for that. -/
theorem wantDatumPoolHost_setBool (cfg : GlobalConfig) (field : BoolField) (value : Bool)
    (config : Json) :
    wantDatumPoolHost (cfg.setBool field value) config =
      (wantDatumPoolHost cfg config).map fun done => (done.1.setBool field value, done.2) := by
  have hcopy (val : List UInt8) :
      (cfg.setBool field value).strcpy .datumPoolHost val =
        (cfg.strcpy .datumPoolHost val).map fun cfg => cfg.setBool field value := by
    rw [GlobalConfig.strcpy, GlobalConfig.strcpy]
    split
    · refine congrArg some ?_
      exact Function.update_comm (by simp) ..
    · rfl
  simp only [wantDatumPoolHost, hcopy, GlobalConfig.string_setBool]
  split
  · rfl
  · split
    · split
      · simp only [Option.map_map]
        rfl
      · simp only [Option.map_map]
        rfl
    · simp only [Option.map_map]
      rfl

/-- The host is put away, and no pool is used. -/
theorem InStep.dropPoolHost {cfg : GlobalConfig} {config : Json}
    (h : InStep arith malloc mem tag cfg config) :
    InStep arith malloc mem tag
      ((cfg.setBool .datumPooledMiningOnly false).setString .datumPoolHost [])
      (datumApiJsonModifyNew
        (datumApiJsonModifyNew
          (match datumMember config "pool_host" with
            | some j => datumApiJsonModifyNew config "datum" "pool_host(old)" j
            | none => config) "datum" "pool_host" (.string [])) "datum" "pooled_mining_only"
        (.bool (((cfg.setBool .datumPooledMiningOnly false).setString .datumPoolHost []).bool
          .datumPooledMiningOnly))) := by
  have hput : InStep arith malloc mem tag cfg
      (match datumMember config "pool_host" with
        | some j => datumApiJsonModifyNew config "datum" "pool_host(old)" j
        | none => config) := by
    split
    · exact h.modifyOther (by decide) name_ne_pool_host_old _
    · exact h
  have hempty : 0 ∉ ([] : List UInt8) := by simp
  have hflag := (hput.setString .datumPoolHost (by decide) (by decide) (by decide) (by decide)
    hempty (by decide)).setBool .datumPooledMiningOnly (by decide) (by decide) (by decide) false
  have hswap : (cfg.setString .datumPoolHost []).setBool .datumPooledMiningOnly false =
      (cfg.setBool .datumPooledMiningOnly false).setString .datumPoolHost [] :=
    Function.update_comm (by decide) ..
  rw [hswap] at hflag
  exact hflag

theorem settled_setRewardSharing (h : InStep arith malloc mem tag s.cfg s.configJson)
    (val : List UInt8) : Settled arith malloc mem tag s (setRewardSharing val s) := by
  obtain ⟨done, hdone, hkept⟩ := wantDatumPoolHost_inStep h
  have hpooled (value : Bool) := hkept.setBool .datumPooledMiningOnly (by decide) (by decide)
    (by decide) value
  simp only [setRewardSharing, wantDatumPoolHost_setBool, hdone, Option.map_some, Option.bind_some,
    GlobalConfig.bool_setBool, if_true]
  split
  · split
    · exact Settled.unchanged h
    · exact Settled.changed (hpooled true) true
  · split
    · split
      · exact Settled.unchanged h
      · exact Settled.changed (hpooled false) true
    · split
      · split
        · exact Settled.unchanged h
        · exact Settled.changed (h.dropPoolHost) true
      · exact Settled.refused h _

/-- Whatever setting is made. -/
theorem settled_datumApiConfigSet (h : InStep arith malloc mem tag s.cfg s.configJson)
    (sha256 : List UInt8 → List UInt8) (key : List UInt8) {val : List UInt8} (hzero : 0 ∉ val) :
    Settled arith malloc mem tag s (datumApiConfigSet sha256 key val s) := by
  rw [datumApiConfigSet]
  refine Settled.ite (settled_setMiningPoolAddress h sha256 hzero) ?_
  refine Settled.ite (settled_setUsernameBehaviour h val) ?_
  refine Settled.ite (settled_setSecondaryTag h _ hzero) ?_
  refine Settled.ite
    (settled_setIntOption h (by decide) (.inl rfl) (by decide) (by decide) _ false val) ?_
  refine Settled.ite (settled_setRewardSharing h val) ?_
  refine Settled.ite (settled_setDatumPoolHost h hzero) ?_
  refine Settled.ite
    (settled_setIntOption h (by decide) (.inr rfl) (by decide) (by decide) _ true val) ?_
  refine Settled.ite
    (settled_setStringOption h (by decide) (by decide) (by decide) (by decide) (by decide) _ true
      hzero) ?_
  refine Settled.ite (settled_setBoolOption h (by decide) (by decide) (by decide) _ val) ?_
  refine Settled.ite (settled_setBoolOption h (by decide) (by decide) (by decide) _ val) ?_
  refine Settled.ite (settled_setMiningPowAlgorithm h val) ?_
  refine Settled.ite (settled_setBoolOption h (by decide) (by decide) (by decide) _ val) ?_
  refine Settled.ite (settled_setWorkUpdateSeconds h val) ?_
  refine Settled.ite
    (settled_setStringOption h (by decide) (by decide) (by decide) (by decide) (by decide) _ false
      hzero) ?_
  refine Settled.ite
    (settled_setStringOption h (by decide) (by decide) (by decide) (by decide) (by decide) _ false
      hzero) ?_
  refine Settled.ite (Settled.ite (Settled.unchanged h) ?_) (Settled.refused h _)
  exact settled_setStringOption h (by decide) (by decide) (by decide) (by decide) (by decide) _
    false hzero

end

end ChirpGateway
