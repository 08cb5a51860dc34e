import ChirpGateway.Coinbase.ScriptSig
import ChirpGateway.Datum.Authentic
import ChirpGateway.Lib.Buffer

/-!
# What the server configures

`datum_protocol_client_configure` (`datum_protocol.c:392-452`) reads five fields one
after the other and stores each at once. What happens to a message that ends or is
wrong somewhere, and what the fields of a good one are used for.
-/

namespace ChirpGateway

open Bytes Wire Within

/-! ## The fields of a message -/

section Fields

variable (data : List UInt8)

/-- The place behind the script. -/
def scriptEnd : Nat := 2 + (data.getD 1 0).toNat

/-- The place of the length of the tag. -/
def tagAt : Nat := scriptEnd data + 4

/-- The place behind the tag. -/
def tagEnd : Nat := tagAt data + 1 + (data.getD (tagAt data) 0).toNat

def sentScript : List UInt8 := bytesAt data 2 (data.getD 1 0).toNat

def sentPrimeId : UInt32 := UInt32.ofNat (leValue (bytesAt data (scriptEnd data) 4))

def sentTag : List UInt8 := bytesAt data (tagAt data + 1) (data.getD (tagAt data) 0).toNat

def sentVardiffMin : UInt64 := UInt64.ofNat (leValue (bytesAt data (tagEnd data) 8))

/-- What becomes of the difficulty that is sent, if it is not zero. -/
def roundedVardiffMin (sent : UInt64) : UInt64 :=
  if sent ≠ roundDownToPowerOfTwo sent then roundDownToPowerOfTwo sent <<< 1 else sent

/-- What becomes of any difficulty. -/
def configuredVardiffMin (zeroDown sent : UInt64) : UInt64 :=
  if sent = 0 then if 0 ≠ zeroDown then zeroDown <<< 1 else 0 else roundedVardiffMin sent

/-- How many fields are in front of the first error of a message of so many bytes. The
    fifth is the trailer. -/
def fieldsRead (len : Nat) : Nat :=
  if 0 ≥ len ∨ data.getD 0 0 ≠ 1 then 0
  else if 1 ≥ len ∨ scriptEnd data > len then 0
  else if scriptEnd data + 4 > len then 1
  else if tagAt data ≥ len ∨ tagEnd data > len then 2
  else if tagEnd data + 8 > len then 3
  else if tagEnd data + 8 + 2 > len then 4
  else if data.getD (tagEnd data + 8) 0 ≠ 0 ∨ data.getD (tagEnd data + 9) 0 ≠ 0xfe then 4
  else 5

end Fields

namespace DatumClient

variable (env : MsgEnv) (s : DatumClient)

/-- The fields in front of the first error are stored; a message without one is accepted. -/
theorem clientConfigure_eq (len : Nat) (data : List UInt8) :
    s.clientConfigure env len data =
      let n := fieldsRead data len
      ({ s with
          config :=
            { overrideMiningPoolScriptsig :=
                if 1 ≤ n then sentScript data else s.config.overrideMiningPoolScriptsig
              primeId := if 2 ≤ n then sentPrimeId data else s.config.primeId
              overrideMiningCoinbaseTagPrimary :=
                if 3 ≤ n then sentTag data else s.config.overrideMiningCoinbaseTagPrimary
              overrideVardiffMin :=
                if 4 ≤ n then configuredVardiffMin env.zeroDown (sentVardiffMin data)
                else s.config.overrideVardiffMin }
          datumState := if 5 ≤ n then 3 else s.datumState }, if 5 ≤ n then 1 else 0) := by
  have hscriptEnd : 2 + (data.getD 1 0).toNat = scriptEnd data := rfl
  have htagAt : scriptEnd data + 4 = tagAt data := rfl
  have htagEnd : tagAt data + 1 + (data.getD (tagAt data) 0).toNat = tagEnd data := rfl
  have hsent : UInt64.ofNat (leValue (bytesAt data (tagEnd data) 8)) = sentVardiffMin data := rfl
  have hrounded (sent : UInt64) :
      (if sent ≠ (if sent = 0 then env.zeroDown else roundDownToPowerOfTwo sent) then
        (if sent = 0 then env.zeroDown else roundDownToPowerOfTwo sent) <<< 1 else sent) =
      configuredVardiffMin env.zeroDown sent := by
    unfold configuredVardiffMin roundedVardiffMin
    by_cases hzero : sent = 0
    · subst hzero
      simp only [if_true]
    · simp only [if_neg hzero]
  simp only [clientConfigure, fieldsRead, hscriptEnd, htagAt, htagEnd, hsent, hrounded]
  by_cases hversion : 0 ≥ len ∨ data.getD 0 0 ≠ 1
  · rw [if_pos hversion, if_pos hversion]
    simp
  rw [if_neg hversion, if_neg hversion]
  by_cases hscript : 1 ≥ len ∨ scriptEnd data > len
  · rw [if_pos hscript, if_pos hscript]
    simp
  rw [if_neg hscript, if_neg hscript]
  by_cases hprime : tagAt data > len
  · rw [if_pos hprime, if_pos hprime]
    simp [sentScript]
  rw [if_neg hprime, if_neg hprime]
  by_cases htag : tagAt data ≥ len ∨ tagEnd data > len
  · rw [if_pos htag, if_pos htag]
    simp [sentScript, sentPrimeId]
  rw [if_neg htag, if_neg htag]
  by_cases hvardiff : tagEnd data + 8 > len
  · rw [if_pos hvardiff, if_pos hvardiff]
    simp [sentScript, sentPrimeId, sentTag]
  rw [if_neg hvardiff, if_neg hvardiff]
  by_cases hroom : tagEnd data + 8 + 2 > len
  · rw [if_pos hroom, if_pos hroom]
    simp [sentScript, sentPrimeId, sentTag]
  rw [if_neg hroom, if_neg hroom]
  by_cases htrailer : data.getD (tagEnd data + 8) 0 ≠ 0 ∨ data.getD (tagEnd data + 9) 0 ≠ 0xfe
  · rw [if_pos htrailer, if_pos htrailer]
    simp [sentScript, sentPrimeId, sentTag]
  rw [if_neg htrailer, if_neg htrailer]
  simp [sentScript, sentPrimeId, sentTag]

/-- `datum_protocol_client_configure` where nothing but the message can be read; `none` is a
    read behind its end. -/
def configureWithin (msg : List UInt8) : Option (DatumClient × Int) :=
  let len := msg.length
  if 0 ≥ len then some (s, 0)
  else msg[0]?.bind fun version =>
  if version ≠ 1 then some (s, 0)
  else if 1 ≥ len then some (s, 0)
  else msg[1]?.bind fun a =>
  let i := 2 + a.toNat
  if i > len then some (s, 0)
  else (span msg 2 a.toNat).bind fun script =>
  let s := { s with config.overrideMiningPoolScriptsig := script }
  if i + 4 > len then some (s, 0)
  else (span msg i 4).bind fun prime =>
  let s := { s with config.primeId := UInt32.ofNat (leValue prime) }
  let i := i + 4
  if i ≥ len then some (s, 0)
  else msg[i]?.bind fun a =>
  let i := i + 1
  if i + a.toNat > len then some (s, 0)
  else (span msg i a.toNat).bind fun tag =>
  let s := { s with config.overrideMiningCoinbaseTagPrimary := tag }
  let i := i + a.toNat
  if i + 8 > len then some (s, 0)
  else (span msg i 8).bind fun vardiff =>
  let sent := UInt64.ofNat (leValue vardiff)
  let down := if sent = 0 then env.zeroDown else roundDownToPowerOfTwo sent
  let s := { s with config.overrideVardiffMin := if sent ≠ down then down <<< 1 else sent }
  let i := i + 8
  if i + 2 > len then some (s, 0)
  else msg[i]?.bind fun zero => msg[i + 1]?.bind fun cap =>
  if zero ≠ 0 ∨ cap ≠ 0xfe then some (s, 0)
  else some ({ s with datumState := 3 }, 1)

/-- Nothing behind the message is read. -/
theorem configureWithin_eq (msg rest : List UInt8) :
    s.configureWithin env msg = some (s.clientConfigure env msg.length (msg ++ rest)) := by
  have hbyte {i : Nat} (h : i < msg.length) := getElem?_append_of_lt msg rest 0 h
  have hspan {offset size : Nat} (h : offset + size ≤ msg.length) := span_eq_bytesAt msg rest h
  unfold configureWithin clientConfigure
  dsimp only
  by_cases hempty : 0 ≥ msg.length
  · rw [if_pos hempty, if_pos (Or.inl hempty)]
  rw [if_neg hempty, hbyte (by omega), Option.bind_some]
  by_cases hversion : (msg ++ rest).getD 0 0 ≠ 1
  · rw [if_pos hversion, if_pos (Or.inr hversion)]
  rw [if_neg hversion, if_neg (not_or.mpr ⟨hempty, hversion⟩)]
  by_cases hsize : 1 ≥ msg.length
  · rw [if_pos hsize, if_pos (Or.inl hsize)]
  rw [if_neg hsize, hbyte (by omega), Option.bind_some]
  generalize hscriptLen : ((msg ++ rest).getD 1 0).toNat = scriptLen
  by_cases hscript : 2 + scriptLen > msg.length
  · rw [if_pos hscript, if_pos (Or.inr hscript)]
  rw [if_neg hscript, if_neg (not_or.mpr ⟨hsize, hscript⟩), hspan (by omega), Option.bind_some]
  by_cases hprime : 2 + scriptLen + 4 > msg.length
  · rw [if_pos hprime, if_pos hprime]
  rw [if_neg hprime, if_neg hprime, hspan (by omega), Option.bind_some]
  by_cases hlast : 2 + scriptLen + 4 ≥ msg.length
  · rw [if_pos hlast, if_pos (Or.inl hlast)]
  rw [if_neg hlast, hbyte (by omega), Option.bind_some]
  generalize htagLen : ((msg ++ rest).getD (2 + scriptLen + 4) 0).toNat = tagLen
  by_cases htag : 2 + scriptLen + 4 + 1 + tagLen > msg.length
  · rw [if_pos htag, if_pos (Or.inr htag)]
  rw [if_neg htag, if_neg (not_or.mpr ⟨hlast, htag⟩), hspan (by omega), Option.bind_some]
  by_cases hvardiff : 2 + scriptLen + 4 + 1 + tagLen + 8 > msg.length
  · rw [if_pos hvardiff, if_pos hvardiff]
  rw [if_neg hvardiff, if_neg hvardiff, hspan (by omega), Option.bind_some]
  by_cases hroom : 2 + scriptLen + 4 + 1 + tagLen + 8 + 2 > msg.length
  · rw [if_pos hroom, if_pos hroom]
  rw [if_neg hroom, if_neg hroom, hbyte (by omega), Option.bind_some, hbyte (by omega),
    Option.bind_some]
  split <;> rfl

/-! ## Rejected messages -/

/-- What the server has configured. The tag ends at its first zero byte. -/
def configured : PoolConfig × UInt8 :=
  ({ s.config with
      overrideMiningCoinbaseTagPrimary :=
        Buffer.cString s.config.overrideMiningCoinbaseTagPrimary }, s.datumState)

/-- The message has no error, or the fields in front of it are those that are configured,
    with a difficulty that is not zero. -/
def RepeatsConfig (msg : List UInt8) : Prop :=
  let n := fieldsRead msg msg.length
  5 ≤ n ∨
    (1 ≤ n → sentScript msg = s.config.overrideMiningPoolScriptsig) ∧
    (2 ≤ n → sentPrimeId msg = s.config.primeId) ∧
    (3 ≤ n → Buffer.cString (sentTag msg) =
      Buffer.cString s.config.overrideMiningCoinbaseTagPrimary) ∧
    (4 ≤ n → sentVardiffMin msg ≠ 0 ∧
      roundedVardiffMin (sentVardiffMin msg) = s.config.overrideVardiffMin)

/-- What stands behind a message makes no difference. -/
theorem clientConfigure_append (msg rest : List UInt8) :
    s.clientConfigure env msg.length (msg ++ rest) = s.clientConfigure env msg.length msg := by
  have hwith := s.configureWithin_eq env msg rest
  have hwithout := s.configureWithin_eq env msg []
  rw [List.append_nil] at hwithout
  exact Option.some.inj (hwith.symm.trans hwithout)

/-- What is made of zero is nothing that can be relied on. -/
theorem forall_configuredVardiffMin_iff (sent vardiffMin : UInt64) :
    (∀ env : MsgEnv, configuredVardiffMin env.zeroDown sent = vardiffMin) ↔
      sent ≠ 0 ∧ roundedVardiffMin sent = vardiffMin := by
  by_cases hzero : sent = 0
  · subst hzero
    refine iff_of_false (fun hall => ?_) fun h => h.1 rfl
    have hkept := hall ⟨[], true, 0⟩
    rw [← hall ⟨[], true, 1⟩] at hkept
    exact absurd hkept (by decide)
  · have : Nonempty MsgEnv := ⟨freeEnv⟩
    simp [configuredVardiffMin, hzero]

/-- A rejected message reads nothing but itself, and is sure to change nothing if and only if
    what it says in front of its error is configured already. -/
theorem rejectedConfig_kept_iff (msg rest : List UInt8) :
    (∀ env,
        configureWithin env s msg = some (clientConfigure env s msg.length (msg ++ rest)) ∧
        ((clientConfigure env s msg.length (msg ++ rest)).2 = 0 →
          configured (clientConfigure env s msg.length (msg ++ rest)).1 = configured s)) ↔
      RepeatsConfig s msg := by
  rw [forall_congr' fun env => and_iff_right (s.configureWithin_eq env msg rest)]
  simp only [clientConfigure_append]
  simp only [clientConfigure_eq]
  by_cases hdone : 5 ≤ fieldsRead msg msg.length
  · simp [RepeatsConfig, hdone]
  · rw [RepeatsConfig, or_iff_right hdone]
    simp only [configured, hdone, if_false, forall_const, apply_ite Buffer.cString, Prod.mk.injEq,
      PoolConfig.mk.injEq, and_true, ite_eq_right_iff]
    constructor
    · intro hall
      obtain ⟨hscript, hprime, htag, -⟩ := hall freeEnv
      refine ⟨hscript, hprime, htag, fun hfour => ?_⟩
      exact (forall_configuredVardiffMin_iff _ _).mp fun env => (hall env).2.2.2 hfour
    · rintro ⟨hscript, hprime, htag, hvardiff⟩ env
      refine ⟨hscript, hprime, htag, fun hfour => ?_⟩
      exact (forall_configuredVardiffMin_iff _ _).mpr (hvardiff hfour) env

/-- The script of a message that ends behind it replaces the one that is configured. -/
theorem truncatedConfig_changes :
    (readyClient.clientConfigure freeEnv 3 [1, 1, 0x51]).2 = 0 ∧
      (readyClient.clientConfigure freeEnv 3 [1, 1, 0x51]).1.config.overrideMiningPoolScriptsig =
        [0x51] ∧
      readyClient.config.overrideMiningPoolScriptsig = [] := by
  decide +kernel

end DatumClient

/-! ## The difficulty -/

/-- The difficulty is a power of two that is not below the one that was sent, for every one
    that can be rounded up. -/
theorem roundedVardiffMin_usable_iff {sent : UInt64} (hzero : sent ≠ 0) :
    (IsPowerOfTwo (roundedVardiffMin sent) ∧ sent ≤ roundedVardiffMin sent) ↔
      sent.toNat ≤ 2 ^ 63 := by
  have hne : sent.toNat ≠ 0 := fun h => hzero (UInt64.toNat_inj.mp h)
  have hdown := toNat_roundDownToPowerOfTwo hne
  have hle : 2 ^ sent.toNat.log2 ≤ sent.toNat := Nat.log2_self_le hne
  have hlt : sent.toNat < 2 ^ (sent.toNat.log2 + 1) := Nat.lt_log2_self
  rw [roundedVardiffMin, UInt64.le_iff_toNat_le]
  by_cases hsame : sent = roundDownToPowerOfTwo sent
  · rw [if_neg (not_not.mpr hsame)]
    have hself : sent.toNat = 2 ^ sent.toNat.log2 := (congrArg UInt64.toNat hsame).trans hdown
    have hlog : sent.toNat.log2 < 64 := (Nat.log2_lt hne).mpr sent.toNat_lt
    refine iff_of_true ⟨⟨_, hself⟩, Nat.le_refl _⟩ ?_
    rw [hself]
    exact Nat.pow_le_pow_right (by decide) (Nat.le_of_lt_succ hlog)
  · rw [if_pos hsame]
    have hdiff : sent.toNat ≠ 2 ^ sent.toNat.log2 := fun h =>
      hsame (UInt64.toNat_inj.mp (h.trans hdown.symm))
    have hpow : 2 ^ (sent.toNat.log2 + 1) = 2 ^ sent.toNat.log2 * 2 := Nat.pow_succ ..
    have hshift : (roundDownToPowerOfTwo sent <<< 1).toNat =
        2 ^ (sent.toNat.log2 + 1) % 2 ^ 64 := by
      rw [UInt64.toNat_shiftLeft, hdown, Nat.shiftLeft_eq, hpow]
      rfl
    by_cases hsmall : sent.toNat.log2 + 1 < 64
    · -- the double is below the end of the words
      have hfits : 2 ^ (sent.toNat.log2 + 1) < 2 ^ 64 := Nat.pow_lt_pow_right (by decide) hsmall
      have hhalf : 2 ^ (sent.toNat.log2 + 1) ≤ 2 ^ 63 :=
        Nat.pow_le_pow_right (by decide) (Nat.le_of_lt_succ hsmall)
      rw [Nat.mod_eq_of_lt hfits] at hshift
      refine iff_of_true ⟨⟨_, hshift⟩, ?_⟩ ?_
      · rw [hshift]
        exact Nat.le_of_lt hlt
      · exact Nat.le_trans (Nat.le_of_lt hlt) hhalf
    · have hlarge : 2 ^ 63 ≤ 2 ^ sent.toNat.log2 := Nat.pow_le_pow_right (by decide) (by omega)
      refine iff_of_false ?_ (by omega)
      rintro ⟨hpower, hge⟩
      have hzero : (roundDownToPowerOfTwo sent <<< 1).toNat = 0 := by
        rw [hshift]
        exact Nat.mod_eq_zero_of_dvd (Nat.pow_dvd_pow 2 (by omega))
      omega

/-- Zero may become anything, and then is no difficulty. -/
theorem configuredVardiffMin_usable_iff (sent : UInt64) :
    (∀ env : MsgEnv, IsPowerOfTwo (configuredVardiffMin env.zeroDown sent) ∧
        sent ≤ configuredVardiffMin env.zeroDown sent) ↔
      sent ≠ 0 ∧ sent.toNat ≤ 2 ^ 63 := by
  by_cases hzero : sent = 0
  · subst hzero
    refine iff_of_false (fun hall => ?_) fun h => h.1 rfl
    exact absurd (hall DatumClient.freeEnv).1.pos (by decide)
  · have : Nonempty MsgEnv := ⟨DatumClient.freeEnv⟩
    simp only [configuredVardiffMin, hzero, if_false, forall_const, ne_eq, not_false_eq_true,
      true_and]
    exact roundedVardiffMin_usable_iff hzero

/-! ## The tag -/

/-- The script with this tag of the pool is written, in at most 100 bytes, at every height
    and with no headline. -/
def TagUsable (tags : CoinbaseTags) (supName tag : List UInt8) : Prop :=
  ∀ tmpl : DatumTemplate, b2bHeadline tmpl = [] →
    ∃ script, generateCoinbaseScript tags (some tag) tmpl supName = some script ∧
      script.returned ≤ 100

/-- The primary tag is in the push whole. -/
theorem length_primary_lt_of_tagPush {space : Nat} {primary secondary push : List UInt8}
    (h : tagPush space primary secondary = some push) : primary.length < push.length := by
  simp only [tagPush] at h
  split_ifs at h with hover hpos
  · obtain rfl := Option.some.inj h
    have hcontent := length_tagContent primary
      (secondary.take (fitTags space primary.length secondary.length).1)
    have hneeded : primary.length ≤ tagsNeeded primary.length
        (secondary.take (fitTags space primary.length secondary.length).1).length := by
      unfold tagsNeeded
      split_ifs <;> omega
    rw [List.length_append, length_pushBytes, hcontent]
    split <;> omega
  · obtain rfl := Option.some.inj h
    have hnone : primary.length = 0 := by
      unfold fitTags at hpos
      dsimp only at hpos
      split_ifs at hpos <;> dsimp only at hpos <;> omega
    simp [hnone]

theorem length_script_unheaded (tags : CoinbaseTags) (tag : List UInt8) {tmpl : DatumTemplate}
    (h : b2bHeadline tmpl = []) (push : List UInt8) :
    (scriptAround tags (some tag) tmpl push).returned =
      (appendUNum (coinbaseHeight tmpl.height)).length + 8 + push.length := by
  have hid : (uniqueIdWritten tags true).length = 6 := by
    simp [uniqueIdWritten]
  show (scriptAround tags (some tag) tmpl push).cb.length = _
  rw [length_scriptAround, h, scriptOverhead]
  simp [hid]

/-- A template of the last height there can be. -/
def lastTemplate : DatumTemplate where
  height := 0xffffffff
  coinbasevalue := 1
  sizelimit := 4000000
  weightlimit := 4000000
  previousblockhashBin := List.replicate 32 0
  defaultWitnessCommitment := List.replicate 76 0x30
  headerVersion := 0
  blake2bHeadline := []
  txnTotalWeight := 0
  txnTotalSize := 0
  coinbasevalue_ne := by decide
  witnessCommitment_length := activationTemplate.witnessCommitment_length
  headline_length := noHeadline_length
  txnTotalSize_lt := noTransactions_lt

theorem length_appendUNum_last : (appendUNum (coinbaseHeight lastTemplate.height)).length = 10 := by
  simp [lastTemplate, coinbaseHeight, appendUNum, unumBytes]

/-- A tag is of use if and only if it and what comes with it need at most 80 bytes. -/
theorem tagUsable_iff (tags : CoinbaseTags) (supName tag : List UInt8) :
    TagUsable tags supName tag ↔ tagsNeeded tag.length (secTag tags supName).length ≤ 80 := by
  have hpushed {push : List UInt8} {tmpl : DatumTemplate} (h : b2bHeadline tmpl = [])
      (hpush : tagPush 86 tag (secTag tags supName) = some push) :
      generateCoinbaseScript tags (some tag) tmpl supName =
        some (scriptAround tags (some tag) tmpl push) := by
    rw [generateCoinbaseScript_eq, h]
    exact congrArg (Option.map _) hpush
  constructor
  · intro husable
    obtain ⟨script, hscript, hle⟩ := husable lastTemplate rfl
    cases hpush : tagPush 86 tag (secTag tags supName) with
    | none =>
      rw [generateCoinbaseScript_eq] at hscript
      have hpanic : tagPush (tagSpace (b2bHeadline lastTemplate)) (primaryTag tags (some tag))
          (secTag tags supName) = none := hpush
      rw [hpanic] at hscript
      cases hscript
    | some push =>
      obtain rfl := Option.some.inj ((hpushed rfl hpush).symm.trans hscript)
      rw [length_script_unheaded tags tag rfl, length_appendUNum_last] at hle
      by_cases hfits : TagsFit 86 tag.length (secTag tags supName).length
      · obtain ⟨kept, -, hlength, hpush'⟩ := tagPush_of_tagsFit hfits
        obtain rfl := Option.some.inj (hpush.symm.trans hpush')
        rw [List.length_append, length_pushBytes] at hle
        split at hle <;> omega
      · -- a tag that is only just too long leaves no room to the height
        have hprimary := length_primary_lt_of_tagPush hpush
        unfold TagsFit tagsNeeded at hfits
        split_ifs at hfits <;> omega
  · intro hneeded tmpl htmpl
    have hfits : TagsFit 86 tag.length (secTag tags supName).length :=
      Or.inl (Nat.le_trans hneeded (by decide))
    obtain ⟨kept, -, hlength, hpush⟩ := tagPush_of_tagsFit hfits
    refine ⟨_, hpushed htmpl hpush, ?_⟩
    have hheight := length_appendUNum_le tmpl.height
    rw [length_script_unheaded tags tag htmpl, List.length_append, length_pushBytes]
    split <;> omega

/-! ## Accepted messages -/

/-- The script fits `pool_addr_script`, the tag does not stop the gateway, and the
    difficulty is a power of two that the server agrees with. -/
structure ConfigUsable (config : PoolConfig) (tags : CoinbaseTags) (supName : List UInt8)
    (sent : UInt64) : Prop where
  script_pos : 1 ≤ config.overrideMiningPoolScriptsig.length
  script_le : config.overrideMiningPoolScriptsig.length ≤ 64
  tag : TagUsable tags supName (Buffer.cString config.overrideMiningCoinbaseTagPrimary)
  vardiff_powerOfTwo : IsPowerOfTwo config.overrideVardiffMin
  vardiff_ge : sent ≤ config.overrideVardiffMin

/-- What an accepted message configures is sure to be of use if and only if its script has a
    length that fits, its tag leaves room to the height, and its difficulty can be rounded
    up. -/
theorem acceptedConfig_usable_iff (s : DatumClient) (msg rest : List UInt8) (tags : CoinbaseTags)
    (supName : List UInt8) {env₀ : MsgEnv}
    (h : (s.clientConfigure env₀ msg.length (msg ++ rest)).2 = 1) :
    (∀ env, ConfigUsable (s.clientConfigure env msg.length (msg ++ rest)).1.config tags supName
        (sentVardiffMin msg)) ↔
      (1 ≤ (sentScript msg).length ∧ (sentScript msg).length ≤ 64) ∧
      tagsNeeded (Buffer.cString (sentTag msg)).length (secTag tags supName).length ≤ 80 ∧
      sentVardiffMin msg ≠ 0 ∧ (sentVardiffMin msg).toNat ≤ 2 ^ 63 := by
  rw [s.clientConfigure_append, s.clientConfigure_eq] at h
  have hdone : 5 ≤ fieldsRead msg msg.length := by
    by_contra hfew
    simp [hfew] at h
  simp only [s.clientConfigure_append]
  simp only [s.clientConfigure_eq]
  rw [← tagUsable_iff, ← configuredVardiffMin_usable_iff]
  have hfour : 4 ≤ fieldsRead msg msg.length := by omega
  have hthree : 3 ≤ fieldsRead msg msg.length := by omega
  have hone : 1 ≤ fieldsRead msg msg.length := by omega
  constructor
  · intro hall
    obtain ⟨hpos, hle, htag, -, -⟩ := hall env₀
    simp only [if_pos hone, if_pos hthree] at hpos hle htag
    refine ⟨⟨hpos, hle⟩, htag, fun env => ?_⟩
    obtain ⟨-, -, -, hpower, hge⟩ := hall env
    simp only [if_pos hfour] at hpower hge
    exact ⟨hpower, hge⟩
  · rintro ⟨⟨hpos, hle⟩, htag, hvardiff⟩ env
    refine ⟨?_, ?_, ?_, ?_, ?_⟩
    · simpa only [if_pos hone] using hpos
    · simpa only [if_pos hone] using hle
    · simpa only [if_pos hthree] using htag
    · simpa only [if_pos hfour] using (hvardiff env).1
    · simpa only [if_pos hfour] using (hvardiff env).2

/-- A configuration message with a script and a tag. -/
def configMessage (script tag : List UInt8) (vardiff : Nat) : List UInt8 :=
  [1, UInt8.ofNat script.length] ++ script ++ [7, 0, 0, 0, UInt8.ofNat tag.length] ++ tag ++
    leBytes 8 vardiff ++ [0, 0xfe]

def shortConfig : List UInt8 := configMessage [0x51, 0x52] (ascii "pool") 1000

theorem shortConfig_usable :
    ConfigUsable (DatumClient.readyClient.clientConfigure DatumClient.freeEnv shortConfig.length
      (shortConfig ++ [])).1.config brandedTags [] (sentVardiffMin shortConfig) :=
  (acceptedConfig_usable_iff DatumClient.readyClient shortConfig [] brandedTags []
    (show (DatumClient.readyClient.clientConfigure DatumClient.freeEnv shortConfig.length
      (shortConfig ++ [])).2 = 1 by decide +kernel)).mpr (by decide +kernel) DatumClient.freeEnv

/-- A script of 65 bytes is accepted, and so are a tag of 100 bytes and the difficulty 0. -/
theorem longConfig_not_usable :
    let msg := configMessage (List.replicate 65 0x51) (List.replicate 100 0x70) 0
    (DatumClient.readyClient.clientConfigure DatumClient.freeEnv msg.length msg).2 = 1 ∧
      ¬ ConfigUsable
        (DatumClient.readyClient.clientConfigure DatumClient.freeEnv msg.length msg).1.config
        brandedTags [] (sentVardiffMin msg) := by
  refine ⟨by decide +kernel, fun h => ?_⟩
  exact absurd h.script_le (by decide +kernel)

end ChirpGateway
