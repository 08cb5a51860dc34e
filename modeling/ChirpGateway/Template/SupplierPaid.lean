import ChirpGateway.Chirp.Glue
import ChirpGateway.Chirp.OutputBytes
import ChirpGateway.Coinbase.UserTx
import ChirpGateway.Stratum.TxCount
import ChirpGateway.Template.Rotation

/-!
# Who is paid for a template

The supplier whose transactions a cycle put into the node's reply
(`datum_blocktemplates.c:659-834`) and the supplier a job made from that reply pays
(`datum_stratum.c:2328-2335`, `datum_coinbaser.c:825-846`,
`datum_chirp_glue.c:245-276`). The carousel pins the one to the other. With a single
file the coinbase of a miner reads the address from the settings, whether the
file was taken or not, and the CHIRP outputs read what only the carousel writes.
-/

namespace ChirpGateway

open Bytes Wire

/-- The settings of template mode together with those of the two coinbases, as
    `datum_conf.c:654-675` admits them. -/
structure SupplierConfig extends TemplateConfig where
  miningBlake2bPersonalLotto : Bool
  miningBlake2bChirp : Bool
  miningTemplateSupplierBps : Nat
  miningTemplatePoolBps : Nat
  miningChirpFeeBps : Nat
  template : miningBlake2bTemplate = true
  exclusive : (miningBlake2bChirp && miningBlake2bPersonalLotto) = false
  finder_left : miningTemplateSupplierBps + miningTemplatePoolBps < 10000
  syndicate_left : miningChirpFeeBps + miningTemplateSupplierBps < 10000

namespace SupplierConfig

variable (cfg : SupplierConfig)

/-- What the coinbase of a miner reads. -/
def lottoConfig : LottoConfig where
  miningBlake2bPersonalLotto := cfg.miningBlake2bPersonalLotto
  miningBlake2bTemplate := cfg.miningBlake2bTemplate
  miningBlake2bTemplateCarousel := cfg.miningBlake2bTemplateCarousel
  miningTemplateSupplierAddress := cfg.miningTemplateSupplierAddress
  miningTemplateSupplierBps := cfg.miningTemplateSupplierBps
  miningTemplatePoolBps := cfg.miningTemplatePoolBps
  share_left := cfg.finder_left

/-- What the CHIRP outputs read. -/
def chirpConfig : ChirpConfig where
  miningBlake2bTemplate := cfg.miningBlake2bTemplate
  miningTemplateSupplierBps := cfg.miningTemplateSupplierBps
  miningChirpFeeBps := cfg.miningChirpFeeBps
  share_left := cfg.syndicate_left

/-- The carousel has a directory to rotate over. -/
def rotates : Bool :=
  cfg.miningBlake2bTemplateCarousel && cfg.miningTemplateDir ≠ []

/-- `supplier_sats` for a supplier that decodes. -/
def supplierPart (value : UInt64) : Nat :=
  value.toNat * cfg.miningTemplateSupplierBps / 10000

end SupplierConfig

/-! ## The supplier a cycle installs -/

section Install

variable (cfg : SupplierConfig) (blake2b : List UInt8 → Hash32)
  (sorter : Qsort.Sorter (List UInt8)) (st : SupplierState) (input : CycleInput)

/-- `names[idx]`, once the cycle is counted. -/
def scheduledName (ourPh : List UInt8) (names : List (List UInt8)) : List UInt8 :=
  names.getD ((carouselStart cfg.toTemplateConfig ourPh blake2b
    (jsonU64 (input.resVal.objectGet "height")) names.length +
      (advanceCycle ourPh (activate cfg.toTemplateConfig st)).crCycle.toNat) % names.length) []

/-- The address and the template `datum_template_swap_from` is called with in a
    cycle, if it is called. -/
def swapCall : Option (List UInt8 × Json) :=
  match input.resVal.stringAt "previousblockhash" with
  | none => none
  | some ourPh =>
    if preActivation cfg.toTemplateConfig input.resVal then none
    else if cfg.rotates then
      input.files.listing.bind fun listing =>
        match sorter.sort strcmp (collectNames cfg.toTemplateConfig ourPh 0 listing) with
        | [] => none
        | names@(_ :: _) =>
          let pick := scheduledName cfg blake2b st input ourPh names
          (input.files.reload pick).map fun sup => ((ChirpAddr.copy pick).bytes, sup)
    else if cfg.miningTemplateFile = [] then none
    else input.files.single.map fun sup => (cfg.miningTemplateSupplierAddress, sup)

/-- The address whose template the cycle put into the reply. -/
def installedSupplier : Option (List UInt8) :=
  (swapCall cfg blake2b sorter st input).bind fun call =>
    if (swapFrom input.resVal call.2 (input.resVal.stringAt "previousblockhash")).1 then
      some call.1
    else
      none

end Install

/-! ## The supplier a job pays -/

section Paid

variable (sha256 : List UInt8 → List UInt8)

/-- The address decodes to a script. -/
def isAddress (address : List UInt8) : Bool :=
  (addr2OutputScript sha256 address).isSome

/-- The fields of a job that CHIRP reads. -/
def StratumJob.chirpJob (job : StratumJob) : SplitJob where
  height := UInt64.ofNat job.blockTemplate.height.toNat
  prevhashBin := job.blockTemplate.previousblockhashBin
  coinbaseValue := job.blockTemplate.coinbasevalue
  carouselSupplier := .copy job.carouselSupplier

/-- The coinbase of every miner is built, and between the miner's output and those
    of the fee and the witness commitment it has one for the supplier's script, if
    there is one to pay. -/
def LottoPays (cfg : SupplierConfig) (supplier : Option (List UInt8)) (job : StratumJob) : Prop :=
  ∀ userScript, isScript userScript = true →
    ∃ coinbase miner fee commitment,
      lottoCoinbase (addr2OutputScript sha256) cfg.lottoConfig job (some userScript) =
          some coinbase ∧
        miner.script = userScript ∧
        addr2OutputScript sha256 blake2bLottoFeeAddr = some fee.script ∧
        coinb2Outputs coinbase.coinb2Bin = some (miner :: (supplier.toList.map (fun script =>
          { value := (bpsOf job.blockTemplate.coinbasevalue cfg.miningTemplateSupplierBps).toNat
            script }) ++ [fee, commitment]))

/-- The outputs CHIRP fills are the commitment, one for the supplier's script, if
    there is one to pay, and those of the payouts: whatever the registry, the time
    and the draw. -/
def ChirpPays (cfg : SupplierConfig) (supplier : Option (List UInt8)) (job : StratumJob) : Prop :=
  ∀ {K : Type} [LinearOrder K] (qsort : Qsort.Sorter (K × ChirpCand))
    (drawKey : Nat → List UInt8 → Rat → K) (jsonDumps : Json → List UInt8)
    (blake2b256 : List UInt8 → Hash32) (env : ChirpEnv) (now : UInt64)
    (registry : List ChirpMiner),
    ∃ fill, chirpGlueFillOutputs sha256 cfg.chirpConfig job.chirpJob qsort drawKey jsonDumps
        blake2b256 env now registry = some fill ∧
      fill.outputs = commitmentOutputs jsonDumps blake2b256 env fill.snapshot ++
        (supplier.toList.map (fun script =>
            { outputScript := script
              valueSats := cfg.supplierPart job.blockTemplate.coinbasevalue }) ++
          fill.snapshot.payouts.filterMap (payoutOutput sha256))

/-- The coinbase of a job pays the supplier of its transactions, if there is one
    whose address decodes, and nobody in his place. The part of a CHIRP supplier is
    left out below `CHIRP_MIN_PAYOUT_SATS`. -/
structure PaysSupplier (cfg : SupplierConfig) (installed : Option (List UInt8))
    (job : StratumJob) : Prop where
  lotto : cfg.miningBlake2bPersonalLotto = true →
    LottoPays sha256 cfg (installed.bind (addr2OutputScript sha256)) job
  chirp : cfg.miningBlake2bChirp = true →
    chirpMinPayoutSats ≤ cfg.supplierPart job.blockTemplate.coinbasevalue →
    ChirpPays sha256 cfg (installed.bind (addr2OutputScript sha256)) job

end Paid

/-- A job `update_stratum_job` makes after a cycle: on what the parser made of the
    reply, with the supplier the cycle left, and the pool's coinbase in front. -/
structure CreatedFrom (cfg : SupplierConfig) (parser : ParserConfig)
    (blake2b : List UInt8 → Hash32) (sorter : Qsort.Sorter (List UInt8)) (tag : List UInt8)
    (before : List CycleInput) (input : CycleInput) (job : StratumJob) : Prop where
  parsed : ∃ tdata, gbtParser parser
      (outcomeOf cfg.toTemplateConfig blake2b sorter tag before input).2 = some tdata ∧
    job.blockTemplate = tdata.toBlockTemplate
  pinned : job.carouselSupplier = (ChirpAddr.copy
    (outcomeOf cfg.toTemplateConfig blake2b sorter tag before input).1.carouselSupplier).bytes
  pool : ∃ tags coinbaserJob scriptInput, generateCoinbaseInput tags coinbaserJob.blockTemplate
      coinbaserJob.carouselSupplierName = some scriptInput ∧
    job.coinbase 0 = emptyCoinbase coinbaserJob scriptInput.bytes

/-- The single file is taken in this cycle. -/
def SingleSwap (cfg : SupplierConfig) (input : CycleInput) : Prop :=
  preActivation cfg.toTemplateConfig input.resVal = false ∧ cfg.miningTemplateFile ≠ [] ∧
    ∃ sup supTxs, input.files.single = some sup ∧ Applies input.resVal sup supTxs

/-- When a job pays whom it mines for: always in a carousel over a directory. With
    a single file the coinbase of a miner is right where the file is taken, and
    with the carousel on but no directory where it is not; CHIRP is right where it is
    not taken. -/
structure PaysAsMined (sha256 : List UInt8 → List UInt8) (cfg : SupplierConfig)
    (input : CycleInput) (value : UInt64) : Prop where
  lotto : cfg.miningBlake2bPersonalLotto = true → cfg.rotates = false →
    isAddress sha256 cfg.miningTemplateSupplierAddress = true →
    (SingleSwap cfg input ↔ cfg.miningBlake2bTemplateCarousel = false)
  chirp : cfg.miningBlake2bChirp = true → cfg.rotates = false →
    isAddress sha256 cfg.miningTemplateSupplierAddress = true →
    chirpMinPayoutSats ≤ cfg.supplierPart value → ¬ SingleSwap cfg input

/-! ## What a cycle leaves behind -/

/-- What fits the field of the supplier fits a `char[128]`. -/
theorem copy_take (text : List UInt8) : ChirpAddr.copy (text.take 127) = .copy text := by
  have hbytes : (Buffer.cString (text.take 127)).take (chirpAddrMax - 1) =
      (Buffer.cString text).take (chirpAddrMax - 1) := by
    show ((text.take 127).takeWhile _).take 127 = (text.takeWhile _).take 127
    rw [← List.take_takeWhile, List.take_take, Nat.min_self]
  simp only [ChirpAddr.copy, hbytes]

theorem copy_nil_bytes : (ChirpAddr.copy []).bytes = [] := rfl

/-- A template that is not taken leaves the reply. -/
theorem swapFrom_of_not_taken {resVal sup : Json} {ourPh : Option (List UInt8)}
    (h : (swapFrom resVal sup ourPh).1 = false) : (swapFrom resVal sup ourPh).2 = resVal := by
  unfold swapFrom at h ⊢
  split at h
  · split at h
    · cases h
    · next hne => rw [if_neg hne]
  · rfl

theorem swapFrom_taken_iff (resVal sup : Json) :
    (swapFrom resVal sup (resVal.stringAt "previousblockhash")).1 = true ↔
      ∃ supTxs, Applies resVal sup supTxs := by
  constructor
  · intro htaken
    by_contra hnone
    have hnot : swap resVal sup = (false, resVal) := swap_of_not_applies (not_exists.mp hnone)
    unfold swap at hnot
    rw [hnot] at htaken
    cases htaken
  · rintro ⟨supTxs, happlies⟩
    obtain ⟨resVal', hswap, -⟩ := swap_of_applies happlies
    unfold swap at hswap
    rw [hswap]

section Cycle

variable {cfg : SupplierConfig} {blake2b : List UInt8 → Hash32}
  {sorter : Qsort.Sorter (List UInt8)} {st : SupplierState} {input : CycleInput}
  {ourPh : List UInt8}

variable (cfg blake2b st input ourPh) in
/-- What the rotation writes: the supplier it serves, or nobody. -/
theorem serveScheduled_eq (names : List (List UInt8)) :
    let out := serveScheduled cfg.toTemplateConfig ourPh blake2b
      (advanceCycle ourPh (activate cfg.toTemplateConfig st)) input.files.reload input.resVal names
    let pick := scheduledName cfg blake2b st input ourPh names
    match input.files.reload pick with
    | none => out.1.carouselSupplier = [] ∧ out.2 = input.resVal
    | some sup =>
      out.2 = (swapFrom input.resVal sup (some ourPh)).2 ∧
        out.1.carouselSupplier =
          if (swapFrom input.resVal sup (some ourPh)).1 then pick.take 127 else [] := by
  intro out pick
  have hout : out = serveScheduled cfg.toTemplateConfig ourPh blake2b
      (advanceCycle ourPh (activate cfg.toTemplateConfig st)) input.files.reload input.resVal
      names := rfl
  unfold serveScheduled at hout
  dsimp only at hout
  change out = match input.files.reload pick with | none => _ | some sup => _ at hout
  cases hload : input.files.reload pick with
  | none =>
    rw [hload] at hout
    rw [hout]
    exact ⟨rfl, rfl⟩
  | some sup =>
    rw [hload] at hout
    dsimp only at hout ⊢
    have hkept : (swapFrom input.resVal sup (some ourPh)).1 = false →
        (swapFrom input.resVal sup (some ourPh)).2 = input.resVal := swapFrom_of_not_taken
    cases hswap : swapFrom input.resVal sup (some ourPh) with
    | mk taken resVal' =>
      rw [hswap] at hout hkept
      cases taken with
      | false =>
        rw [hout]
        exact ⟨(hkept rfl).symm, rfl⟩
      | true =>
        rw [hout]
        exact ⟨rfl, rfl⟩

/-- What a cycle of the carousel leaves: the supplier it installed, or nobody. -/
theorem carouselSupplier_of_rotates (hrotates : cfg.rotates = true)
    (hph : input.resVal.stringAt "previousblockhash" = some ourPh) :
    (ChirpAddr.copy (applySupplier cfg.toTemplateConfig blake2b sorter st input.files
      input.resVal).1.carouselSupplier).bytes =
        (installedSupplier cfg blake2b sorter st input).getD [] := by
  unfold applySupplier installedSupplier swapCall
  rw [if_pos cfg.template, hph]
  dsimp only
  by_cases hpre : preActivation cfg.toTemplateConfig input.resVal = true
  · rw [if_pos hpre, if_pos hpre]
    exact copy_nil_bytes
  · have hdirectory : (cfg.miningBlake2bTemplateCarousel && cfg.miningTemplateDir ≠ []) = true :=
      hrotates
    rw [if_neg hpre, if_neg hpre, if_pos hdirectory, if_pos hrotates, carouselCycle]
    cases input.files.listing with
    | none => exact copy_nil_bytes
    | some listing =>
      dsimp only [Option.bind_some]
      cases sorter.sort strcmp (collectNames cfg.toTemplateConfig ourPh 0 listing) with
      | nil => exact copy_nil_bytes
      | cons name rest =>
        have hserved := serveScheduled_eq cfg blake2b st input ourPh (name :: rest)
        dsimp only [rotateOver] at hserved ⊢
        cases hload :
          input.files.reload (scheduledName cfg blake2b st input ourPh (name :: rest)) with
        | none =>
          rw [hload] at hserved
          rw [hserved.1]
          exact copy_nil_bytes
        | some sup =>
          rw [hload] at hserved
          rw [hserved.2, Option.map_some, Option.bind_some]
          dsimp only
          by_cases htaken : (swapFrom input.resVal sup (some ourPh)).1 = true
          · rw [if_pos htaken, if_pos htaken, copy_take]
            rfl
          · rw [if_neg htaken, if_neg htaken]
            exact copy_nil_bytes

/-- The reply after a cycle is what the one call made of it. -/
theorem applySupplier_reply :
    (applySupplier cfg.toTemplateConfig blake2b sorter st input.files input.resVal).2 =
      match swapCall cfg blake2b sorter st input with
      | none => input.resVal
      | some call =>
        (swapFrom input.resVal call.2 (input.resVal.stringAt "previousblockhash")).2 := by
  unfold applySupplier swapCall
  rw [if_pos cfg.template]
  cases hph : input.resVal.stringAt "previousblockhash" with
  | none => rfl
  | some ourPh =>
    dsimp only
    by_cases hpre : preActivation cfg.toTemplateConfig input.resVal = true
    · rw [if_pos hpre, if_pos hpre]
    · rw [if_neg hpre, if_neg hpre]
      by_cases hrotates : cfg.rotates = true
      · have hdirectory :
            (cfg.miningBlake2bTemplateCarousel && cfg.miningTemplateDir ≠ []) = true := hrotates
        rw [if_pos hdirectory, if_pos hrotates, carouselCycle]
        cases input.files.listing with
        | none => rfl
        | some listing =>
          dsimp only [Option.bind_some]
          cases sorter.sort strcmp (collectNames cfg.toTemplateConfig ourPh 0 listing) with
          | nil => rfl
          | cons name rest =>
            have hserved := serveScheduled_eq cfg blake2b st input ourPh (name :: rest)
            dsimp only [rotateOver] at hserved ⊢
            cases hload : input.files.reload
                (scheduledName cfg blake2b st input ourPh (name :: rest)) with
            | none =>
              rw [hload] at hserved
              exact hserved.2
            | some sup =>
              rw [hload] at hserved
              exact hserved.1
      · have hdirectory :
            ¬ (cfg.miningBlake2bTemplateCarousel && cfg.miningTemplateDir ≠ []) = true :=
              hrotates
        rw [if_neg hdirectory, if_neg hrotates, singleCycle]
        by_cases hfile : cfg.miningTemplateFile = []
        · rw [if_pos hfile, if_pos hfile]
        · rw [if_neg hfile, if_neg hfile]
          cases input.files.single with
          | none => rfl
          | some sup => rfl

theorem carouselSupplier_activate (st : SupplierState) :
    (activate cfg.toTemplateConfig st).carouselSupplier = st.carouselSupplier := by
  unfold activate
  split
  · split
    · rfl
    · rfl
  · rfl

/-- With a single file nobody writes the supplier of the carousel. -/
theorem carouselSupplier_of_single (hsingle : cfg.rotates = false)
    (hst : st.carouselSupplier = []) :
    (applySupplier cfg.toTemplateConfig blake2b sorter st input.files
      input.resVal).1.carouselSupplier = [] := by
  unfold applySupplier
  rw [if_pos cfg.template]
  cases input.resVal.stringAt "previousblockhash" with
  | none => exact hst
  | some ourPh =>
    have hdirectory :
        ¬ (cfg.miningBlake2bTemplateCarousel && cfg.miningTemplateDir ≠ []) = true :=
      Bool.eq_false_iff.mp hsingle
    dsimp only
    by_cases hpre : preActivation cfg.toTemplateConfig input.resVal = true
    · rw [if_pos hpre]
      rfl
    · rw [if_neg hpre, if_neg hdirectory, singleCycle]
      split
      · exact (carouselSupplier_activate st).trans hst
      · split
        · exact (carouselSupplier_activate st).trans hst
        · exact (carouselSupplier_activate st).trans hst

/-- Whom a single file installs. -/
theorem installedSupplier_of_single (hsingle : cfg.rotates = false) (supplier : List UInt8) :
    installedSupplier cfg blake2b sorter st input = some supplier ↔
      SingleSwap cfg input ∧ cfg.miningTemplateSupplierAddress = supplier := by
  have hdirectory : ¬ cfg.rotates = true := Bool.eq_false_iff.mp hsingle
  have hcall : ∀ address sup, swapCall cfg blake2b sorter st input = some (address, sup) ↔
      (input.resVal.stringAt "previousblockhash").isSome = true ∧
        preActivation cfg.toTemplateConfig input.resVal = false ∧
        cfg.miningTemplateFile ≠ [] ∧ input.files.single = some sup ∧
        cfg.miningTemplateSupplierAddress = address := by
    intro address sup
    unfold swapCall
    cases input.resVal.stringAt "previousblockhash" with
    | none => simp
    | some ourPh =>
      dsimp only
      by_cases hpre : preActivation cfg.toTemplateConfig input.resVal = true
      · simp [hpre]
      · by_cases hfile : cfg.miningTemplateFile = []
        · simp [hdirectory, hfile]
        · rw [if_neg hpre, if_neg hdirectory, if_neg hfile, Option.map_eq_some_iff]
          simp [hpre, hfile, and_comm]
  unfold installedSupplier
  rw [Option.bind_eq_some_iff]
  constructor
  · rintro ⟨⟨address, sup⟩, hfound, htaken⟩
    obtain ⟨-, hpre, hfile, hload, rfl⟩ := (hcall address sup).mp hfound
    split at htaken
    · next hswap =>
      obtain ⟨supTxs, happlies⟩ := (swapFrom_taken_iff _ _).mp hswap
      exact ⟨⟨hpre, hfile, sup, supTxs, hload, happlies⟩, Option.some.inj htaken⟩
    · cases htaken
  · rintro ⟨⟨hpre, hfile, sup, supTxs, hload, happlies⟩, rfl⟩
    have hph : (input.resVal.stringAt "previousblockhash").isSome = true := by
      obtain ⟨ph, hour, -⟩ := happlies
      rw [hour]
      rfl
    refine ⟨(cfg.miningTemplateSupplierAddress, sup),
      (hcall _ _).mpr ⟨hph, hpre, hfile, hload, rfl⟩, ?_⟩
    exact if_pos ((swapFrom_taken_iff _ _).mpr ⟨supTxs, happlies⟩)

end Cycle

/-! ## Whom a job pays -/

section Pays

variable {sha256 : List UInt8 → List UInt8} {cfg : SupplierConfig} {job : StratumJob}

theorem isAddress_nil : isAddress sha256 [] = false := rfl

theorem ne_nil_of_isAddress {supplier : List UInt8} (h : isAddress sha256 supplier = true) :
    supplier ≠ [] := by
  rintro rfl
  cases isAddress_nil.symm.trans h

theorem isScript_of_addr2OutputScript {address script : List UInt8}
    (h : addr2OutputScript sha256 address = some script) : isScript script = true := by
  obtain ⟨hmin, hmax, -⟩ := outputBytes_of_addr2OutputScript h
  rw [isScript_iff]
  omega

/-- The coinbase of a miner pays the address it looks up. -/
theorem userSupplierScript_eq : userSupplierScript (addr2OutputScript sha256) cfg.lottoConfig job =
    addr2OutputScript sha256 (userSupplierAddress cfg.lottoConfig job) := by
  have htemplate : cfg.lottoConfig.miningBlake2bTemplate = true := cfg.template
  unfold userSupplierScript
  cases hscript : addr2OutputScript sha256 (userSupplierAddress cfg.lottoConfig job) with
  | none => simp
  | some script =>
    have hne : userSupplierAddress cfg.lottoConfig job ≠ [] :=
      ne_nil_of_isAddress (Option.isSome_of_eq_some hscript)
    simp [htemplate, hne, isScript_of_addr2OutputScript hscript]

/-- What a place was filled with can be read from it. -/
theorem eq_of_map_toList {α β : Type} {f g : β → α} {x y : Option β} (read : α → β)
    (hf : ∀ b, read (f b) = b) (hg : ∀ b, read (g b) = b)
    (h : x.toList.map f = y.toList.map g) : x = y := by
  have hread := congrArg (fun items => (items.map read).head?) h
  simpa [Function.comp_def, hf, hg] using hread

/-- The outputs of a miner's coinbase are right exactly where the address it looks
    up is the one to pay. -/
theorem lottoPays_iff (hmode : cfg.miningBlake2bPersonalLotto = true)
    (hfee : isAddress sha256 blake2bLottoFeeAddr = true)
    (hpool : ∃ tags coinbaserJob scriptInput,
      generateCoinbaseInput tags coinbaserJob.blockTemplate
        coinbaserJob.carouselSupplierName = some scriptInput ∧
      job.coinbase 0 = emptyCoinbase coinbaserJob scriptInput.bytes)
    (supplier : Option (List UInt8)) :
    LottoPays sha256 cfg supplier job ↔
      supplier = addr2OutputScript sha256 (userSupplierAddress cfg.lottoConfig job) := by
  obtain ⟨feeScript, hfeeScript⟩ := Option.isSome_iff_exists.mp hfee
  obtain ⟨tags, coinbaserJob, scriptInput, hinput, hcoinb1⟩ := hpool
  have hfeeFits := isScript_of_addr2OutputScript hfeeScript
  have hbuilt : ∀ {userScript}, isScript userScript = true → ∃ coinbase,
      lottoCoinbase (addr2OutputScript sha256) cfg.lottoConfig job (some userScript) =
          some coinbase ∧
        coinb2Outputs coinbase.coinb2Bin = some (userVout (addr2OutputScript sha256)
          cfg.lottoConfig job userScript feeScript blake2bLottoFeeBps) := by
    intro userScript huser
    exact ⟨_, lottoCoinbase_eq_some hmode hinput hcoinb1 hfeeScript hfeeFits huser,
      coinb2Outputs_userCoinb2 (isScript_iff.mp huser).2 (isScript_iff.mp hfeeFits).2⟩
  rw [← userSupplierScript_eq]
  constructor
  · intro hpays
    -- the fee's own script is one a miner can have
    obtain ⟨coinbase, miner, fee, commitment, hbuild, -, -, houtputs⟩ := hpays _ hfeeFits
    obtain ⟨built, hlotto, hvout⟩ := hbuilt hfeeFits
    obtain rfl : built = coinbase := Option.some.inj (hlotto.symm.trans hbuild)
    have hsame := (List.cons.inj (Option.some.inj (hvout.symm.trans houtputs))).2
    exact (eq_of_map_toList TxOut.script (fun _ => rfl) (fun _ => rfl)
      (List.append_inj_left' hsame rfl)).symm
  · rintro rfl userScript huser
    obtain ⟨coinbase, hlotto, hvout⟩ := hbuilt huser
    let values := userValues (addr2OutputScript sha256) cfg.lottoConfig job blake2bLottoFeeBps
    refine ⟨coinbase, { value := values.user.toNat, script := userScript },
      { value := values.fee.toNat, script := feeScript },
      { value := 0, script := userWitness job }, hlotto, rfl, hfeeScript, ?_⟩
    rw [hvout, userVout]
    cases hscript : userSupplierScript (addr2OutputScript sha256) cfg.lottoConfig job with
    | none => rfl
    | some script =>
      have hvalue := (userValues_eq (addr2OutputScript sha256) cfg.lottoConfig job
        blake2bLottoFeeBps).1
      rw [userSupplierBps, hscript, Option.isSome_some, if_pos rfl] at hvalue
      rw [Option.toList_some, List.map_singleton, List.map_singleton, hvalue]
      rfl

/-- The supplier's output among those of CHIRP goes to the address pinned to the
    job. -/
theorem supplierOutputs_eq
    (hpart : chirpMinPayoutSats ≤ cfg.supplierPart job.blockTemplate.coinbasevalue) :
    supplierOutputs sha256 cfg.chirpConfig job.chirpJob =
      (addr2OutputScript sha256 (ChirpAddr.copy job.carouselSupplier).bytes).toList.map
        (fun script => { outputScript := script
                         valueSats := cfg.supplierPart job.blockTemplate.coinbasevalue }) := by
  have htemplate : cfg.chirpConfig.miningBlake2bTemplate = true := cfg.template
  have hsupplier : supplierScript sha256 cfg.chirpConfig job.chirpJob =
      addr2OutputScript sha256 (ChirpAddr.copy job.carouselSupplier).bytes := by
    unfold supplierScript chirpSupplier
    by_cases hempty : (ChirpAddr.copy job.carouselSupplier).bytes = []
    · have hcopy : job.chirpJob.carouselSupplier.bytes = [] := hempty
      rw [hcopy, hempty]
      simp
      rfl
    · have hcopy : job.chirpJob.carouselSupplier = .copy job.carouselSupplier := rfl
      rw [hcopy, if_pos]
      · rfl
      · simpa [htemplate] using hempty
  cases hscript : addr2OutputScript sha256 (ChirpAddr.copy job.carouselSupplier).bytes with
  | none =>
    rw [supplierOutputs, hsupplier, hscript]
    rfl
  | some script =>
    rw [hscript] at hsupplier
    have hsats : (supplierSats sha256 cfg.chirpConfig job.chirpJob).toNat =
        cfg.supplierPart job.blockTemplate.coinbasevalue := by
      have hleft := cfg.syndicate_left
      rw [(supplierSats_toNat sha256 cfg.chirpConfig job.chirpJob).1, supplierBps, hsupplier,
        Option.isSome_some, if_pos rfl, UInt16.toNat_ofNat_of_lt']
      · rfl
      · exact lt_of_le_of_lt (Nat.le_add_left _ _) (hleft.trans (by decide))
    rw [supplierOutputs, hsupplier, Option.toList_some, List.map_singleton, ← hsats]
    exact if_pos (hsats ▸ hpart)

/-- The outputs CHIRP fills are right exactly where the address pinned to the job is
    the one to pay. -/
theorem chirpPays_iff
    (hpart : chirpMinPayoutSats ≤ cfg.supplierPart job.blockTemplate.coinbasevalue)
    (supplier : Option (List UInt8)) :
    ChirpPays sha256 cfg supplier job ↔
      supplier = addr2OutputScript sha256 (ChirpAddr.copy job.carouselSupplier).bytes := by
  have hfill := fun (K : Type) (_ : LinearOrder K) (qsort : Qsort.Sorter (K × ChirpCand))
    (drawKey : Nat → List UInt8 → Rat → K) (jsonDumps : Json → List UInt8)
    (blake2b256 : List UInt8 → Hash32) (env : ChirpEnv) (now : UInt64)
    (registry : List ChirpMiner) =>
      chirpGlueFillOutputs_eq sha256 cfg.chirpConfig job.chirpJob qsort drawKey jsonDumps
        blake2b256 env now registry job.blockTemplate.coinbasevalue_ne
  rw [supplierOutputs_eq hpart] at hfill
  constructor
  · intro hpays
    obtain ⟨fill, hsome, houtputs⟩ := hpays (Qsort.insertionSorter (Nat × ChirpCand))
      (fun _ _ _ => 0) (fun _ => [])
      (fun _ => uniformHash 0) ⟨false, none, none, none, none⟩ 0 []
    obtain rfl := Option.some.inj (hsome.symm.trans (hfill ..))
    have hsame := List.append_cancel_right (List.append_cancel_left houtputs)
    exact (eq_of_map_toList DatumTxnOutput.outputScript (fun _ => rfl) (fun _ => rfl) hsame).symm
  · rintro rfl K _ qsort drawKey jsonDumps blake2b256 env now registry
    exact ⟨_, hfill .., rfl⟩

end Pays

/-! ## Paid exactly when mined -/

section Main

variable {sha256 : List UInt8 → List UInt8} {cfg : SupplierConfig} {parser : ParserConfig}
  {blake2b : List UInt8 → Hash32} {sorter : Qsort.Sorter (List UInt8)} {tag : List UInt8}
  {before : List CycleInput} {input : CycleInput} {job : StratumJob}

/-- Over a run with a single file the supplier of the carousel stays empty. -/
theorem carouselSupplier_stateAfter (hsingle : cfg.rotates = false) (cycles : List CycleInput) :
    (stateAfter cfg.toTemplateConfig blake2b sorter tag cycles).carouselSupplier = [] := by
  induction cycles using List.reverseRecOn with
  | nil => rfl
  | append_singleton cycles input ih =>
    rw [stateAfter_append, outcomeOf]
    exact carouselSupplier_of_single hsingle ih

/-- A template is only made of a reply that names its previous block. -/
theorem previousblockhash_of_gbtTexts {gbt : Json} {texts : GbtTexts}
    (h : gbtTexts gbt = some texts) : ∃ ph, gbt.stringAt "previousblockhash" = some ph := by
  obtain ⟨bits, -, h⟩ := Option.bind_eq_some_iff.mp h
  obtain ⟨previousblockhash, hprevious, -⟩ := Option.bind_eq_some_iff.mp h
  obtain ⟨ph, hph, -⟩ := Option.bind_eq_some_iff.mp hprevious
  exact ⟨ph, hph⟩

theorem previousblockhash_of_created
    (hjob : CreatedFrom cfg parser blake2b sorter tag before input job) :
    ∃ ourPh, input.resVal.stringAt "previousblockhash" = some ourPh := by
  obtain ⟨tdata, hparse, -⟩ := hjob.parsed
  obtain ⟨numbers, header, version, texts, read, -, -, htexts, -, -⟩ :=
    gbtParser_eq_some_iff.mp hparse
  cases hph : input.resVal.stringAt "previousblockhash" with
  | some ourPh => exact ⟨ourPh, rfl⟩
  | none =>
    have hreply : (outcomeOf cfg.toTemplateConfig blake2b sorter tag before input).2 =
        input.resVal := by
      rw [outcomeOf, applySupplier_reply, swapCall, hph]
    obtain ⟨ph, hfound⟩ := previousblockhash_of_gbtTexts htexts
    rw [hreply, hph] at hfound
    cases hfound

/-- The address pinned to a job of the carousel is the one installed. -/
theorem pinned_of_rotates (hrotates : cfg.rotates = true)
    (hjob : CreatedFrom cfg parser blake2b sorter tag before input job) :
    job.carouselSupplier = (installedSupplier cfg blake2b sorter
      (stateAfter cfg.toTemplateConfig blake2b sorter tag before) input).getD [] := by
  obtain ⟨ourPh, hph⟩ := previousblockhash_of_created hjob
  rw [hjob.pinned]
  exact carouselSupplier_of_rotates hrotates hph

theorem pinned_of_single (hsingle : cfg.rotates = false)
    (hjob : CreatedFrom cfg parser blake2b sorter tag before input job) :
    job.carouselSupplier = [] := by
  rw [hjob.pinned, outcomeOf,
    carouselSupplier_of_single hsingle (carouselSupplier_stateAfter hsingle before)]
  rfl

/-- The script of the address the carousel leaves behind is that of the supplier it
    installed, if any. -/
theorem script_getD_installed (installed : Option (List UInt8)) :
    addr2OutputScript sha256 (installed.getD []) = installed.bind (addr2OutputScript sha256) := by
  cases installed <;> rfl

/-- In the carousel a job pays the supplier it mines for. -/
theorem paysSupplier_of_rotates (hrotates : cfg.rotates = true)
    (hfee : isAddress sha256 blake2bLottoFeeAddr = true)
    (hjob : CreatedFrom cfg parser blake2b sorter tag before input job) :
    PaysSupplier sha256 cfg (installedSupplier cfg blake2b sorter
      (stateAfter cfg.toTemplateConfig blake2b sorter tag before) input) job := by
  have hpinned := pinned_of_rotates hrotates hjob
  have hcarousel : cfg.miningBlake2bTemplateCarousel = true := by
    simp only [SupplierConfig.rotates, Bool.and_eq_true] at hrotates
    exact hrotates.1
  refine ⟨?_, ?_⟩
  · intro hmode
    have hlooked : userSupplierAddress cfg.lottoConfig job = job.carouselSupplier :=
      if_pos hcarousel
    rw [lottoPays_iff hmode hfee hjob.pool, hlooked, hpinned, script_getD_installed]
  · intro _ hpart
    have hcopied : (ChirpAddr.copy job.carouselSupplier).bytes = job.carouselSupplier := by
      rw [hjob.pinned, ChirpAddr.copy_bytes]
    rw [chirpPays_iff hpart, hcopied, hpinned, script_getD_installed]

/-- With a single file somebody is to be paid exactly where it is taken. -/
theorem installedScript_of_single (hsingle : cfg.rotates = false) (st : SupplierState)
    [Decidable (SingleSwap cfg input)] :
    (installedSupplier cfg blake2b sorter st input).bind (addr2OutputScript sha256) =
      if SingleSwap cfg input then addr2OutputScript sha256 cfg.miningTemplateSupplierAddress
      else none := by
  have hinstalled : ∀ supplier, installedSupplier cfg blake2b sorter st input = some supplier ↔
      SingleSwap cfg input ∧ cfg.miningTemplateSupplierAddress = supplier :=
    installedSupplier_of_single hsingle
  split
  · next hswap => rw [(hinstalled _).mpr ⟨hswap, rfl⟩, Option.bind_some]
  · next hswap =>
    have hnone : installedSupplier cfg blake2b sorter st input = none := by
      apply Option.eq_none_iff_forall_ne_some.mpr
      intro supplier hsome
      exact hswap ((hinstalled supplier).mp hsome).1
    rw [hnone, Option.bind_none]

/-- With a single file the coinbase of a miner looks at the settings, unless the
    carousel is on. -/
theorem lottoScript_of_single (hsingle : cfg.rotates = false)
    (hjob : CreatedFrom cfg parser blake2b sorter tag before input job) :
    addr2OutputScript sha256 (userSupplierAddress cfg.lottoConfig job) =
      if cfg.miningBlake2bTemplateCarousel then none
      else addr2OutputScript sha256 cfg.miningTemplateSupplierAddress := by
  have hlooked : userSupplierAddress cfg.lottoConfig job =
      if cfg.miningBlake2bTemplateCarousel then job.carouselSupplier
      else cfg.miningTemplateSupplierAddress := rfl
  rw [hlooked, pinned_of_single hsingle hjob]
  split
  · rfl
  · rfl

/-- And CHIRP looks at what only the carousel writes. -/
theorem chirpScript_of_single (hsingle : cfg.rotates = false)
    (hjob : CreatedFrom cfg parser blake2b sorter tag before input job) :
    addr2OutputScript sha256 (ChirpAddr.copy job.carouselSupplier).bytes = none := by
  rw [pinned_of_single hsingle hjob]
  rfl

theorem paysSupplier_single_iff (hsingle : cfg.rotates = false)
    (hfee : isAddress sha256 blake2bLottoFeeAddr = true)
    (hjob : CreatedFrom cfg parser blake2b sorter tag before input job) :
    PaysSupplier sha256 cfg (installedSupplier cfg blake2b sorter
        (stateAfter cfg.toTemplateConfig blake2b sorter tag before) input) job ↔
      PaysAsMined sha256 cfg input job.blockTemplate.coinbasevalue := by
  classical
  have hscript : ∀ {address}, isAddress sha256 address = true ↔
      addr2OutputScript sha256 address ≠ none := Option.isSome_iff_ne_none
  have hinstalled : (installedSupplier cfg blake2b sorter
      (stateAfter cfg.toTemplateConfig blake2b sorter tag before) input).bind
        (addr2OutputScript sha256) =
      if SingleSwap cfg input then addr2OutputScript sha256 cfg.miningTemplateSupplierAddress
      else none := installedScript_of_single hsingle _
  have hlotto : ∀ supplier, cfg.miningBlake2bPersonalLotto = true →
      (LottoPays sha256 cfg supplier job ↔
        supplier = if cfg.miningBlake2bTemplateCarousel then none
          else addr2OutputScript sha256 cfg.miningTemplateSupplierAddress) := by
    intro supplier hmode
    rw [lottoPays_iff hmode hfee hjob.pool, lottoScript_of_single hsingle hjob]
  have hchirp : ∀ supplier,
      chirpMinPayoutSats ≤ cfg.supplierPart job.blockTemplate.coinbasevalue →
        (ChirpPays sha256 cfg supplier job ↔ supplier = none) := by
    intro supplier hpart
    rw [chirpPays_iff hpart, chirpScript_of_single hsingle hjob]
  constructor
  · rintro ⟨hpaidLotto, hpaidChirp⟩
    rw [hinstalled] at hpaidLotto hpaidChirp
    refine ⟨?_, ?_⟩
    · intro hmode _ hvalid
      have hsame := (hlotto _ hmode).mp (hpaidLotto hmode)
      rw [hscript] at hvalid
      by_cases hswap : SingleSwap cfg input <;>
        cases hcarousel : cfg.miningBlake2bTemplateCarousel <;> simp_all
    · intro hmode _ hvalid hpart hswap
      have hsame := (hchirp _ hpart).mp (hpaidChirp hmode hpart)
      rw [if_pos hswap] at hsame
      exact hscript.mp hvalid hsame
  · rintro ⟨hagreeLotto, hagreeChirp⟩
    refine ⟨?_, ?_⟩
    · intro hmode
      rw [hinstalled, hlotto _ hmode]
      have hagree := hagreeLotto hmode hsingle
      by_cases hvalid : isAddress sha256 cfg.miningTemplateSupplierAddress = true
      · have hsame := hagree hvalid
        by_cases hswap : SingleSwap cfg input <;>
          cases hcarousel : cfg.miningBlake2bTemplateCarousel <;> simp_all
      · rw [hscript, not_not] at hvalid
        rw [hvalid, ite_self, ite_self]
    · intro hmode hpart
      rw [hinstalled, hchirp _ hpart]
      split
      · next hswap =>
        by_contra hvalid
        exact hagreeChirp hmode hsingle (hscript.mpr hvalid) hpart hswap
      · rfl

end Main

theorem sampleShare_left : 90 + 300 < 10000 := by decide

/-- A gateway for one supplier, from a height on. -/
def singleLotto (activateHeight : Int) : SupplierConfig where
  miningBlake2bTemplate := true
  miningBlake2bTemplateCarousel := false
  miningTemplateDir := []
  miningTemplateFile := ascii "live.json"
  miningTemplateSupplierAddress := ascii "bc1qw508d6qejxtdg4y5r3zarvary0c5xw7kv8f3t4"
  miningTemplateActivateHeight := activateHeight
  miningTemplateActivateTag := []
  miningTemplateRequireValidated := true
  miningCarouselBlockStride := 0
  miningBlake2bPersonalLotto := true
  miningBlake2bChirp := false
  miningTemplateSupplierBps := 300
  miningTemplatePoolBps := 100
  miningChirpFeeBps := 90
  template := rfl
  exclusive := rfl
  finder_left := by decide
  syndicate_left := sampleShare_left

/-- A cycle that finds the supplier's file. -/
def offeredInput : CycleInput where
  files := { listing := none, reload := fun _ => none, single := some oneTxOffer }
  resVal := countingReply

/-- A job on a template, with nobody pinned to it. -/
def unpinnedJob (tdata : GbtTemplate) (hversion : tdata.headerVersion ≥ 2) : StratumJob :=
  { soloJob weighingInput.bytes with
    blockTemplate := tdata.toBlockTemplate
    isBlake2b := hversion
    carouselSupplier := [] }

/-- SHA-256 of the two texts the checksum of the fee's address is made from. -/
def feeSha256 (text : List UInt8) : List UInt8 :=
  let payload := Hex.decode (ascii "00fbf2b18fd92c985f8b26a309ba1a2accd705e192")
  let digest :=
    Hex.decode (ascii "6e1775966384bfd5a3a7b54ed43015f33711084d24487ed2c268ef00d7412176")
  if text = payload then digest
  else if text = digest then
    Hex.decode (ascii "8d3797ef8d8414182cf374325c93a5dddd08d54a6776cb0b9aa4f5992d4e15b4")
  else []

theorem isAddress_fee : isAddress feeSha256 blake2bLottoFeeAddr = true := by decide +kernel

theorem exists_pool_soloJob : ∃ tags coinbaserJob scriptInput,
    generateCoinbaseInput tags coinbaserJob.blockTemplate coinbaserJob.carouselSupplierName =
        some scriptInput ∧
      (soloJob weighingInput.bytes).coinbase 0 = emptyCoinbase coinbaserJob scriptInput.bytes :=
  ⟨plainTags, soloCoinbaserJob, weighingInput, by decide +kernel, rfl⟩

end ChirpGateway
