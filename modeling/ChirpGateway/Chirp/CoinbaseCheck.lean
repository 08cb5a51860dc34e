import ChirpGateway.Chirp.Glue
import ChirpGateway.Chirp.Verifier
import ChirpGateway.Lib.Tally

/-!
# What the snapshot commits to and what the coinbase pays

The coinbase checks of `main` in `tools/verify_chirp_block.py:180-214`, run on
the coinbase of a job whose outputs `chirp_glue_fill_outputs` wrote, and when
they pass. Values are satoshis.
-/

namespace ChirpGateway

open Bytes

/-! ## The Python code -/

/-- The test for the commitment output. -/
def isCommitment (spk : List UInt8) : Bool :=
  spk.take 2 = [0x6a, 0x26] && (spk.drop 2).take 6 = ascii "CHIRP1" && spk.length = 40

/-- The table `outs`: what the coinbase pays to a script. -/
def pyOuts (vout : List DatumTxnOutput) : List UInt8 → Option Nat :=
  Tally.tally ((vout.filter fun o => !isCommitment o.outputScript && 0 < o.valueSats).map
    fun o => (o.outputScript, o.valueSats))

/-- `outs.get(addr_to_spk(addr)) == sats`; `none` is an exception. -/
def pyPaysExactly (outs : List UInt8 → Option Nat) (addr : List UInt8) (sats : Int) :
    Option Bool :=
  (addrToSpk addr).map fun spk => (spk.bind outs).map Int.ofNat = some sats

/-- `not missing`. -/
def payoutsPresent (outs : List UInt8 → Option Nat) (payouts : List (List UInt8 × Int)) :
    Option Bool :=
  (payouts.mapM fun payout => pyPaysExactly outs payout.1 payout.2).map fun found => found.all id

/-- Truth of a JSON value. -/
def pyTruthy : Json → Bool
  | .null => false
  | .bool b => b
  | .integer n => n ≠ 0
  | .real q => q ≠ 0
  | .string text => !text.isEmpty
  | .array values => !values.isEmpty
  | .object members => !members.isEmpty

/-- The check for the supplier. -/
def supplierPaid (snap : Json) (outs : List UInt8 → Option Nat) : Option Bool := do
  let ver ← match snap.objectGet "v" with
    | some v => pyInt v
    | none => some 1
  if ver ≥ 2 then
    match snap.objectGet "supplier" with
    | none => some true
    | some (.string addr) =>
      if addr.isEmpty then some true
      else do
        let sats ← pyIntAt snap "supplier_sats"
        pyPaysExactly outs addr sats
    | some other => if pyTruthy other then none else some true
  else
    some true

/-- The coinbase checks of `main`, on the payouts they are made for. -/
def coinbaseChecks (snap : Json) (payouts : List (List UInt8 × Int))
    (vout : List DatumTxnOutput) : Option Bool := do
  let present ← payoutsPresent (pyOuts vout) payouts
  let paid ← supplierPaid snap (pyOuts vout)
  some (present && paid)

/-- `(p["addr"], int(p["sats"]))`. -/
def pyPayoutEntry (p : Json) : Option (List UInt8 × Int) :=
  match p.objectGet "addr", (p.objectGet "sats").bind pyInt with
  | some (.string addr), some sats => some (addr, sats)
  | _, _ => none

/-- The payouts a snapshot lists. -/
def pyPayoutList (snap : Json) : Option (List (List UInt8 × Int)) :=
  match snap.objectGet "payouts" with
  | some (.array ps) => ps.mapM pyPayoutEntry
  | _ => none

/-! ## What a snapshot promises -/

/-- What a snapshot commits to pay: the supplier's part, if there is one, and
    the payouts. -/
def committedPayments (snap : Json) : Option (List (List UInt8 × Int)) := do
  let supplierSats ← pyIntAt snap "supplier_sats"
  let payouts ← pyPayoutList snap
  if supplierSats > 0 then
    match snap.objectGet "supplier" with
    | some (.string addr) => some ((addr, supplierSats) :: payouts)
    | _ => none
  else
    some payouts

/-- An output pays what is committed, to the address that is committed. -/
structure Pays (sha256 : List UInt8 → List UInt8) (payment : List UInt8 × Int)
    (output : DatumTxnOutput) : Prop where
  script : addr2OutputScript sha256 payment.1 = some output.outputScript
  value : (output.valueSats : Int) = payment.2

/-- What outputs take out of the coinbase. -/
def outputsTotal (outputs : List DatumTxnOutput) : Nat :=
  (outputs.map DatumTxnOutput.valueSats).sum

/-- The output for what is left over. -/
def leftoverOutput (poolScript : List UInt8) (leftover : Nat) : List DatumTxnOutput :=
  if leftover = 0 then [] else [{ outputScript := poolScript, valueSats := leftover }]

/-- A coinbase of the job that carries all its outputs: besides them it has what
    is left over for the pool, and outputs without value. -/
def CarriesAll (coinbaseValue : Nat) (poolScript : List UInt8)
    (outputs vout : List DatumTxnOutput) : Prop :=
  ∃ others, (∀ o ∈ others, o.valueSats = 0) ∧
    vout.Perm (outputs ++
      leftoverOutput poolScript (coinbaseValue - outputsTotal outputs) ++ others)

/-- The job pays what its snapshot commits to, and the public checks see it. -/
structure PaysSnapshot (sha256 : List UInt8 → List UInt8) (jsonDumps : Json → List UInt8)
    (blake2b256 : List UInt8 → Hash32) (job : SplitJob) (poolScript : List UInt8)
    (fill : ChirpFill) : Prop where
  payments : ∃ payments rest, committedPayments (chirpSnapshot fill.snapshot) = some payments ∧
    fill.outputs = commitmentOutput jsonDumps blake2b256 fill.snapshot :: rest ∧
    List.Forall₂ (Pays sha256) payments rest
  leftover : pyIntAt (chirpSnapshot fill.snapshot) "pool_total" =
    some ((job.coinbaseValue.toNat : Int) - outputsTotal fill.outputs)
  checks : ∃ payouts, pyPayoutList (chirpSnapshot fill.snapshot) = some payouts ∧
    ∀ vout, CarriesAll job.coinbaseValue.toNat poolScript fill.outputs vout →
      coinbaseChecks (chirpSnapshot fill.snapshot) payouts vout = some true

section Fill

variable (sha256 : List UInt8 → List UInt8) (config : ChirpConfig) (job : SplitJob)
variable {K : Type} [LinearOrder K]
variable (qsort : Qsort.Sorter (K × ChirpCand)) (drawKey : Nat → List UInt8 → Rat → K)
variable (jsonDumps : Json → List UInt8) (blake2b256 : List UInt8 → Hash32)
variable (env : ChirpEnv) (now : UInt64) (registry : List ChirpMiner)

/-- The outputs behind the commitment. -/
def paidOutputs : List DatumTxnOutput :=
  supplierOutputs sha256 config job ++
    (chirpGlueSplit sha256 config job qsort drawKey env now registry).payouts.filterMap
      (payoutOutput sha256)

/-- The supplier and every winner can be paid, each to a script of its own. -/
structure SnapshotPayable (poolScript : List UInt8) : Prop where
  payouts : ∀ payout ∈ (chirpGlueSplit sha256 config job qsort drawKey env now
      registry).payouts,
    (addr2OutputScript sha256 payout.addr.bytes).isSome = true ∧
      isTestnetBase58 payout.addr.bytes = false
  /-- a supplier whose address is not even text is left out of the snapshot -/
  supplier : ∀ supplier ∈ chirpSupplier config job, validUtf8 supplier.bytes = true →
    (addr2OutputScript sha256 supplier.bytes).isSome = true ∧
      isTestnetBase58 supplier.bytes = false ∧
      chirpMinPayoutSats ≤ (supplierSats sha256 config job).toNat
  distinct : ((paidOutputs sha256 config job qsort drawKey env now registry ++
    leftoverOutput poolScript
      (chirpGlueSplit sha256 config job qsort drawKey env now registry).poolTotal).map
        DatumTxnOutput.outputScript).Nodup
  /-- JSON integers are signed -/
  amounts : ∀ amount ∈
    (chirpGlueSplit sha256 config job qsort drawKey env now registry).poolTotal ::
      (supplierSats sha256 config job).toNat ::
      (chirpGlueSplit sha256 config job qsort drawKey env now registry).payouts.map
        ChirpPayout.sats, amount < 2 ^ 63

end Fill

/-! ## Reading the snapshot -/

section Lookup

variable (input : SnapshotInput)

/-- An amount as JSON holds it. -/
def jsonAmount (amount : Nat) : Int := (amount : Int).bmod (2 ^ 64)

theorem jsonAmount_eq {amount : Nat} (h : amount < 2 ^ 63) : jsonAmount amount = amount := by
  unfold jsonAmount
  rw [Int.bmod_eq_of_le] <;> omega

/-- A negative amount shows that JSON has lost it. -/
theorem lt_of_jsonAmount_nonneg {amount : Nat} (hlt : amount < 2 ^ 64)
    (h : 0 ≤ jsonAmount amount) : amount < 2 ^ 63 := by
  unfold jsonAmount at h
  rw [Int.bmod_def] at h
  omega

theorem pyIntAt_supplier_sats :
    pyIntAt (chirpSnapshot input) "supplier_sats" =
      some (jsonAmount input.supplierSats.toNat) := by
  rw [pyIntAt, chirpSnapshot_get]
  rfl

theorem pyIntAt_pool_total :
    pyIntAt (chirpSnapshot input) "pool_total" = some (jsonAmount input.poolTotal) := by
  rw [pyIntAt, chirpSnapshot_get]
  rfl

theorem chirpSnapshot_supplier :
    (chirpSnapshot input).objectGet "supplier" = Json.ofText (input.supplier.getD []) := by
  rw [chirpSnapshot_get]
  cases h : Json.ofText (input.supplier.getD []) <;>
    simp [snapshotMembers, List.lookup_cons, h]

theorem chirpSnapshot_payouts :
    (chirpSnapshot input).objectGet "payouts" =
      some (.array (input.payouts.map snapshotPayout)) := by
  rw [chirpSnapshot_get]
  rfl

theorem pyPayoutEntry_snapshotPayout (payout : ChirpPayout) :
    pyPayoutEntry (snapshotPayout payout) =
      if validUtf8 payout.addr.bytes then
        some (payout.addr.bytes, jsonAmount payout.sats)
      else
        none := by
  have hsats : (snapshotPayout payout).objectGet "sats" = some (.ofUInt64 payout.sats) := by
    rw [snapshotPayout, Json.objectGet_ofMembers (by simp)]
    rfl
  have haddr : (snapshotPayout payout).objectGet "addr" = Json.ofText payout.addr.bytes := by
    rw [snapshotPayout, Json.objectGet_ofMembers (by simp)]
    cases Json.ofText payout.addr.bytes <;> rfl
  rw [pyPayoutEntry, hsats, haddr, Json.ofText]
  cases validUtf8 payout.addr.bytes <;> rfl

/-- The list is there as soon as it can be read at all. -/
theorem pyPayoutList_eq_some_iff {payments : List (List UInt8 × Int)} :
    pyPayoutList (chirpSnapshot input) = some payments ↔
      (∀ payout ∈ input.payouts, validUtf8 payout.addr.bytes = true) ∧
        payments = input.payouts.map fun payout =>
          (payout.addr.bytes, jsonAmount payout.sats) := by
  rw [pyPayoutList, chirpSnapshot_payouts]
  simp only
  induction input.payouts generalizing payments with
  | nil =>
    constructor
    · intro h
      cases h
      exact ⟨List.forall_mem_nil _, rfl⟩
    · rintro ⟨-, rfl⟩
      rfl
  | cons payout payouts ih =>
    rw [List.map_cons, List.mapM_cons, pyPayoutEntry_snapshotPayout]
    by_cases hutf8 : validUtf8 payout.addr.bytes = true
    · rw [if_pos hutf8]
      simp only [Option.bind_eq_bind, Option.bind_some, Option.bind_eq_some_iff, Option.pure_def,
        Option.some.injEq, ih, List.forall_mem_cons, hutf8, true_and, List.map_cons]
      constructor
      · rintro ⟨rest, ⟨hrest, rfl⟩, rfl⟩
        exact ⟨hrest, rfl⟩
      · rintro ⟨hrest, rfl⟩
        exact ⟨_, ⟨hrest, rfl⟩, rfl⟩
    · rw [if_neg hutf8]
      constructor
      · intro h
        cases h
      · rintro ⟨hall, -⟩
        exact absurd (hall payout List.mem_cons_self) hutf8

theorem supplierPaid_iff (outs : List UInt8 → Option Nat) :
    supplierPaid (chirpSnapshot input) outs = some true ↔
      (input.supplier.getD [] ≠ [] → validUtf8 (input.supplier.getD []) = true →
        pyPaysExactly outs (input.supplier.getD []) (jsonAmount input.supplierSats.toNat) =
          some true) := by
  have hver : (2 : Int) ≥ 2 := le_rfl
  rw [supplierPaid, chirpSnapshot_v, chirpSnapshot_supplier]
  simp only [pyInt, Option.bind_eq_bind, Option.bind_some, if_pos hver, Json.ofText]
  by_cases hutf8 : validUtf8 (input.supplier.getD []) = true
  · rw [if_pos hutf8]
    simp only [List.isEmpty_iff]
    by_cases hnil : input.supplier.getD [] = []
    · simp [hnil]
    · rw [if_neg hnil, pyIntAt_supplier_sats, Option.bind_some]
      simp [hnil, hutf8]
  · rw [if_neg hutf8]
    simp [hutf8]

end Lookup

theorem committedPayments_eq {snap : Json} {sats : Int} {listed : List (List UInt8 × Int)}
    (hsats : pyIntAt snap "supplier_sats" = some sats) (hlisted : pyPayoutList snap = some listed) :
    committedPayments snap =
      if sats > 0 then
        match snap.objectGet "supplier" with
        | some (.string addr) => some ((addr, sats) :: listed)
        | _ => none
      else
        some listed := by
  rw [committedPayments, hsats, hlisted]
  rfl

theorem exists_of_committedPayments {snap : Json} {payments : List (List UInt8 × Int)}
    (h : committedPayments snap = some payments) :
    ∃ listed, pyPayoutList snap = some listed := by
  rw [committedPayments] at h
  simp only [Option.bind_eq_bind, Option.bind_eq_some_iff] at h
  obtain ⟨-, -, listed, hlisted, -⟩ := h
  exact ⟨listed, hlisted⟩

/-! ## The checks -/

theorem payoutsPresent_iff {outs : List UInt8 → Option Nat}
    {payouts : List (List UInt8 × Int)} :
    payoutsPresent outs payouts = some true ↔
      ∀ payout ∈ payouts, pyPaysExactly outs payout.1 payout.2 = some true := by
  induction payouts with
  | nil => simp [payoutsPresent]
  | cons payout payouts ih =>
    rw [List.forall_mem_cons, ← ih, payoutsPresent, payoutsPresent, List.mapM_cons]
    cases pyPaysExactly outs payout.1 payout.2 with
    | none => simp
    | some found =>
      cases payouts.mapM fun payout => pyPaysExactly outs payout.1 payout.2 <;> simp

theorem coinbaseChecks_iff {snap : Json} {payouts : List (List UInt8 × Int)}
    {vout : List DatumTxnOutput} :
    coinbaseChecks snap payouts vout = some true ↔
      payoutsPresent (pyOuts vout) payouts = some true ∧
        supplierPaid snap (pyOuts vout) = some true := by
  rw [coinbaseChecks]
  cases payoutsPresent (pyOuts vout) payouts <;> cases supplierPaid snap (pyOuts vout) <;> simp

theorem pyPaysExactly_iff {outs : List UInt8 → Option Nat} {addr : List UInt8} {sats : Int} :
    pyPaysExactly outs addr sats = some true ↔
      ∃ spk total, addrToSpk addr = some (some spk) ∧ outs spk = some total ∧
        (total : Int) = sats := by
  rw [pyPaysExactly]
  cases addrToSpk addr with
  | none => simp
  | some spk =>
    cases spk with
    | none => simp
    | some spk =>
      cases houts : outs spk <;> simp [houts]

/-- The check for an address the gateway decodes. -/
theorem pyPaysExactly_of_decoded {sha256 : List UInt8 → List UInt8}
    {outs : List UInt8 → Option Nat} {addr script : List UInt8} {sats : Nat}
    (h : addr2OutputScript sha256 addr = some script) :
    pyPaysExactly outs addr sats = some true ↔
      isTestnetBase58 addr = false ∧ outs script = some sats := by
  rw [pyPaysExactly_iff, addrToSpk_of_addr2OutputScript h]
  cases isTestnetBase58 addr with
  | true => simp
  | false =>
    simp only [Bool.false_eq_true, if_false, Option.some.injEq, Nat.cast_inj, true_and]
    constructor
    · rintro ⟨spk, total, rfl, hspk, rfl⟩
      exact hspk
    · intro hspk
      exact ⟨_, _, rfl, hspk, rfl⟩

theorem isCommitment_of_head_ne {spk : List UInt8} (h : spk.head? ≠ some 0x6a) :
    isCommitment spk = false := by
  cases spk with
  | nil => rfl
  | cons byte spk =>
    rw [List.head?_cons, ne_eq, Option.some.injEq] at h
    simp [isCommitment, h]

/-! ## The outputs of a job -/

section Fill

variable (sha256 : List UInt8 → List UInt8) (config : ChirpConfig) (job : SplitJob)
variable {K : Type} [LinearOrder K]
variable (qsort : Qsort.Sorter (K × ChirpCand)) (drawKey : Nat → List UInt8 → Rat → K)
variable (jsonDumps : Json → List UInt8) (blake2b256 : List UInt8 → Hash32)
variable (env : ChirpEnv) (now : UInt64) (registry : List ChirpMiner)

theorem supplierOutputs_of_lt
    (h : (supplierSats sha256 config job).toNat < chirpMinPayoutSats) :
    supplierOutputs sha256 config job = [] := by
  simp only [supplierOutputs, ge_iff_le, if_neg (not_le.mpr h)]
  split <;> rfl

theorem supplierOutputs_of_zero (h : supplierSats sha256 config job = 0) :
    supplierOutputs sha256 config job = [] := by
  apply supplierOutputs_of_lt
  rw [h]
  decide

/-- A part above dust is paid to the supplier's script. -/
theorem supplierOutputs_of_ge
    (h : chirpMinPayoutSats ≤ (supplierSats sha256 config job).toNat) :
    ∃ supplier script, chirpSupplier config job = some supplier ∧
      addr2OutputScript sha256 supplier.bytes = some script ∧
      supplierOutputs sha256 config job =
        [{ outputScript := script, valueSats := (supplierSats sha256 config job).toNat }] := by
  cases hscript : supplierScript sha256 config job with
  | none =>
    rw [supplierSats_eq_zero sha256 config job hscript] at h
    exact absurd h (by decide)
  | some script =>
    have hbind := hscript
    rw [supplierScript, Option.bind_eq_some_iff] at hbind
    obtain ⟨supplier, hsupplier, hdecode⟩ := hbind
    refine ⟨supplier, script, hsupplier, hdecode, ?_⟩
    simp only [supplierOutputs, hscript]
    rw [if_pos h]

/-- Every output behind the commitment pays an address, above dust. -/
theorem mem_paidOutputs {o : DatumTxnOutput}
    (ho : o ∈ paidOutputs sha256 config job qsort drawKey env now registry) :
    chirpMinPayoutSats ≤ o.valueSats ∧
      ∃ addr, addr2OutputScript sha256 addr = some o.outputScript := by
  rw [paidOutputs, List.mem_append] at ho
  rcases ho with hsupplier | hpayout
  · cases hscript : supplierScript sha256 config job with
    | none =>
      rw [supplierOutputs_of_zero _ _ _ (supplierSats_eq_zero sha256 config job hscript)]
        at hsupplier
      cases hsupplier
    | some script =>
      simp only [supplierOutputs, hscript] at hsupplier
      split at hsupplier
      · next hge =>
        rw [List.mem_singleton] at hsupplier
        subst hsupplier
        obtain ⟨supplier, -, hdecode⟩ := Option.bind_eq_some_iff.mp hscript
        exact ⟨hge, supplier.bytes, hdecode⟩
      · cases hsupplier
  · obtain ⟨payout, hmem, hpayout⟩ := List.mem_filterMap.mp hpayout
    obtain ⟨script, hscript, rfl⟩ := Option.map_eq_some_iff.mp hpayout
    exact ⟨sats_ge_of_mem_payouts _ _ _ _ hmem, _, hscript⟩

theorem outputsTotal_append (xs ys : List DatumTxnOutput) :
    outputsTotal (xs ++ ys) = outputsTotal xs + outputsTotal ys := by
  simp [outputsTotal]

/-- Payouts that do not decode only lower the total. -/
theorem outputsTotal_payouts_le (payouts : List ChirpPayout) :
    outputsTotal (payouts.filterMap (payoutOutput sha256)) ≤
      (payouts.map ChirpPayout.sats).sum := by
  induction payouts with
  | nil => exact le_rfl
  | cons payout payouts ih =>
    rw [List.filterMap_cons, List.map_cons, List.sum_cons, payoutOutput]
    cases addr2OutputScript sha256 payout.addr.bytes with
    | none => exact ih.trans (Nat.le_add_left _ _)
    | some script => exact Nat.add_le_add_left ih _

/-- Where all of them decode the payouts are written one by one. -/
theorem outputsTotal_payouts_eq {payouts : List ChirpPayout}
    (h : ∀ payout ∈ payouts, (addr2OutputScript sha256 payout.addr.bytes).isSome = true) :
    outputsTotal (payouts.filterMap (payoutOutput sha256)) =
      (payouts.map ChirpPayout.sats).sum := by
  induction payouts with
  | nil => rfl
  | cons payout payouts ih =>
    obtain ⟨hpayout, hrest⟩ := List.forall_mem_cons.mp h
    obtain ⟨script, hscript⟩ := Option.isSome_iff_exists.mp hpayout
    rw [List.filterMap_cons, List.map_cons, List.sum_cons, payoutOutput, hscript]
    exact congrArg _ (ih hrest)

theorem outputsTotal_supplierOutputs_le :
    outputsTotal (supplierOutputs sha256 config job) ≤
      (supplierSats sha256 config job).toNat := by
  simp only [supplierOutputs]
  split
  · exact Nat.zero_le _
  · split
    · simp [outputsTotal]
    · exact Nat.zero_le _

/-- Everything the split hands out, and what it leaves to the pool. -/
theorem chirpGlueSplit_conserved :
    ((chirpGlueSplit sha256 config job qsort drawKey env now registry).payouts.map
        ChirpPayout.sats).sum +
      (chirpGlueSplit sha256 config job qsort drawKey env now registry).poolTotal =
        (splitTotal sha256 config job).toNat := by
  have hassigned := assigned_le qsort drawKey (chirpCandidates env registry now).2 job.seed
    (splitTotal sha256 config job) config.feeBps
  have hle := chirpDistributable_le (splitTotal sha256 config job) config.feeBps
  have hpool := chirpSplit_poolTotal qsort drawKey (chirpCandidates env registry now).2 job.seed
    (splitTotal sha256 config job) config.feeBps
  rw [ChirpSplit.assigned] at hassigned hpool
  rw [chirpGlueSplit]
  omega

/-- The outputs never pay more than the job is worth. -/
theorem outputsTotal_paidOutputs_le :
    outputsTotal (paidOutputs sha256 config job qsort drawKey env now registry) ≤
      job.coinbaseValue.toNat := by
  have hconserved := chirpGlueSplit_conserved sha256 config job qsort drawKey env now registry
  have hsplit := splitTotal_add_supplierSats sha256 config job
  have hsupplier := outputsTotal_supplierOutputs_le sha256 config job
  have hpayouts := outputsTotal_payouts_le sha256
    (chirpGlueSplit sha256 config job qsort drawKey env now registry).payouts
  rw [paidOutputs, outputsTotal_append]
  omega

/-- With nothing dropped the pool's leftover is the committed one. -/
theorem leftover_eq
    (hpayouts : ∀ payout ∈
      (chirpGlueSplit sha256 config job qsort drawKey env now registry).payouts,
        (addr2OutputScript sha256 payout.addr.bytes).isSome = true)
    (hsupplier : supplierSats sha256 config job = 0 ∨
      chirpMinPayoutSats ≤ (supplierSats sha256 config job).toNat) :
    outputsTotal (paidOutputs sha256 config job qsort drawKey env now registry) +
        (chirpGlueSplit sha256 config job qsort drawKey env now registry).poolTotal =
      job.coinbaseValue.toNat := by
  have hconserved := chirpGlueSplit_conserved sha256 config job qsort drawKey env now registry
  have hsplit := splitTotal_add_supplierSats sha256 config job
  have hpart : outputsTotal (supplierOutputs sha256 config job) =
      (supplierSats sha256 config job).toNat := by
    rcases hsupplier with hzero | hge
    · rw [supplierOutputs_of_zero _ _ _ hzero, hzero]
      rfl
    · obtain ⟨supplier, script, -, -, houtputs⟩ := supplierOutputs_of_ge sha256 config job hge
      rw [houtputs]
      simp [outputsTotal]
  rw [paidOutputs, outputsTotal_append, outputsTotal_payouts_eq sha256 hpayouts, hpart]
  omega

/-- The table of any coinbase that carries all outputs. -/
theorem pyOuts_of_carriesAll {poolAddress poolScript : List UInt8}
    (hpool : addr2OutputScript sha256 poolAddress = some poolScript) {vout : List DatumTxnOutput}
    {hash32 : Hash32}
    (h : CarriesAll job.coinbaseValue.toNat poolScript
      ({ outputScript := commitmentScript hash32, valueSats := 0 } ::
        paidOutputs sha256 config job qsort drawKey env now registry) vout) :
    pyOuts vout =
      Tally.tally ((paidOutputs sha256 config job qsort drawKey env now registry ++
        leftoverOutput poolScript (job.coinbaseValue.toNat -
          outputsTotal (paidOutputs sha256 config job qsort drawKey env now registry))).map
            fun o => (o.outputScript, o.valueSats)) := by
  obtain ⟨others, hothers, hperm⟩ := h
  have htotal : outputsTotal ({ outputScript := commitmentScript hash32, valueSats := 0 } ::
      paidOutputs sha256 config job qsort drawKey env now registry) =
        outputsTotal (paidOutputs sha256 config job qsort drawKey env now registry) := by
    simp [outputsTotal]
  rw [htotal] at hperm
  rw [pyOuts]
  apply Tally.tally_perm
  apply List.Perm.map
  refine (hperm.filter _).trans (List.Perm.of_eq ?_)
  have hpaid : ∀ o ∈ paidOutputs sha256 config job qsort drawKey env now registry,
      (!isCommitment o.outputScript && decide (0 < o.valueSats)) = true := by
    intro o ho
    obtain ⟨hge, addr, haddr⟩ :=
      mem_paidOutputs sha256 config job qsort drawKey env now registry ho
    have hpos : 0 < o.valueSats := lt_of_lt_of_le (by decide) hge
    rw [isCommitment_of_head_ne (head_ne_of_addr2OutputScript haddr)]
    simpa using hpos
  have hleft : ∀ o ∈ leftoverOutput poolScript (job.coinbaseValue.toNat -
      outputsTotal (paidOutputs sha256 config job qsort drawKey env now registry)),
      (!isCommitment o.outputScript && decide (0 < o.valueSats)) = true := by
    intro o ho
    rw [leftoverOutput] at ho
    split at ho
    · cases ho
    · next hne =>
      rw [List.mem_singleton] at ho
      subst ho
      rw [isCommitment_of_head_ne (head_ne_of_addr2OutputScript hpool)]
      simpa using Nat.pos_of_ne_zero hne
  have hnone : ∀ o ∈ others,
      ¬ (!isCommitment o.outputScript && decide (0 < o.valueSats)) = true := by
    intro o ho
    simp [hothers o ho]
  rw [List.filter_append, List.filter_append, List.filter_eq_nil_iff.mpr hnone,
    List.filter_eq_self.mpr hleft, List.filter_cons_of_neg (by simp), List.filter_eq_self.mpr hpaid,
    List.append_nil]

/-! ## When the job pays its snapshot -/

/-- The payments the snapshot of a job lists behind the supplier's. -/
def payoutPayments : List (List UInt8 × Int) :=
  (chirpGlueSplit sha256 config job qsort drawKey env now registry).payouts.map fun payout =>
    (payout.addr.bytes, jsonAmount payout.sats)

theorem sats_lt_of_mem {payout : ChirpPayout}
    (h : payout ∈ (chirpGlueSplit sha256 config job qsort drawKey env now registry).payouts) :
    payout.sats < 2 ^ 64 := by
  have hconserved := chirpGlueSplit_conserved sha256 config job qsort drawKey env now registry
  have hle := List.single_le_sum (fun _ _ => Nat.zero_le _) _
    (List.mem_map_of_mem (f := ChirpPayout.sats) h)
  have hlt := (splitTotal sha256 config job).toNat_lt
  omega

/-- Payouts that decode and fit JSON are paid one by one. -/
theorem forall₂_pays {payouts : List ChirpPayout}
    (h : ∀ payout ∈ payouts, (addr2OutputScript sha256 payout.addr.bytes).isSome = true ∧
      payout.sats < 2 ^ 63) :
    List.Forall₂ (Pays sha256)
      (payouts.map fun payout => (payout.addr.bytes, jsonAmount payout.sats))
      (payouts.filterMap (payoutOutput sha256)) := by
  induction payouts with
  | nil => exact .nil
  | cons payout payouts ih =>
    obtain ⟨⟨hdecode, hlt⟩, hrest⟩ := List.forall_mem_cons.mp h
    obtain ⟨script, hscript⟩ := Option.isSome_iff_exists.mp hdecode
    rw [List.map_cons, List.filterMap_cons, payoutOutput, hscript]
    exact .cons ⟨hscript, by rw [jsonAmount_eq hlt]⟩ (ih hrest)

theorem exists_pays_of_mem {payments : List (List UInt8 × Int)} {outputs : List DatumTxnOutput}
    (h : List.Forall₂ (Pays sha256) payments outputs) {payment : List UInt8 × Int}
    (hmem : payment ∈ payments) : ∃ output, Pays sha256 payment output := by
  induction h with
  | nil => cases hmem
  | cons hpays _ ih =>
    rcases List.mem_cons.mp hmem with rfl | hrest
    · exact ⟨_, hpays⟩
    · exact ih hrest

theorem validUtf8_of_decodes {addr : List UInt8}
    (h : (addr2OutputScript sha256 addr).isSome = true) : validUtf8 addr = true := by
  obtain ⟨script, hscript⟩ := Option.isSome_iff_exists.mp h
  exact validUtf8_of_ascii (ascii_of_addr2OutputScript hscript)

/-- The snapshot lists every payout that decodes. -/
theorem pyPayoutList_chirpGlueSnapshot
    (h : ∀ payout ∈ (chirpGlueSplit sha256 config job qsort drawKey env now registry).payouts,
      (addr2OutputScript sha256 payout.addr.bytes).isSome = true) :
    pyPayoutList
        (chirpSnapshot (chirpGlueSnapshot sha256 config job qsort drawKey env now registry)) =
      some (payoutPayments sha256 config job qsort drawKey env now registry) :=
  (pyPayoutList_eq_some_iff _).mpr
    ⟨fun payout hpayout => validUtf8_of_decodes sha256 (h payout hpayout), rfl⟩

/-- Outputs that are the committed payments show that every payout decodes, that
    the supplier's part is not dust, and that JSON holds the amounts. -/
theorem payable_of_payments {payments : List (List UInt8 × Int)}
    (hcommitted : committedPayments
      (chirpSnapshot (chirpGlueSnapshot sha256 config job qsort drawKey env now registry)) =
        some payments)
    (hpays : List.Forall₂ (Pays sha256) payments
      (paidOutputs sha256 config job qsort drawKey env now registry)) :
    (∀ payout ∈ (chirpGlueSplit sha256 config job qsort drawKey env now registry).payouts,
      (addr2OutputScript sha256 payout.addr.bytes).isSome = true ∧ payout.sats < 2 ^ 63) ∧
    (supplierSats sha256 config job = 0 ∨
      chirpMinPayoutSats ≤ (supplierSats sha256 config job).toNat ∧
        (supplierSats sha256 config job).toNat < 2 ^ 63) := by
  obtain ⟨listed, hlisted⟩ := exists_of_committedPayments hcommitted
  rw [committedPayments_eq (pyIntAt_supplier_sats _) hlisted, chirpGlueSnapshot_supplierSats]
    at hcommitted
  obtain ⟨-, hlisted⟩ := (pyPayoutList_eq_some_iff _).mp hlisted
  rw [chirpGlueSnapshot_payouts] at hlisted
  subst hlisted
  have hsubset : payoutPayments sha256 config job qsort drawKey env now registry ⊆ payments := by
    split at hcommitted
    · split at hcommitted
      · cases hcommitted
        exact List.subset_cons_self _ _
      · cases hcommitted
    · cases hcommitted
      exact List.Subset.refl _
  have hpayouts : ∀ payout ∈
      (chirpGlueSplit sha256 config job qsort drawKey env now registry).payouts,
      (addr2OutputScript sha256 payout.addr.bytes).isSome = true ∧ payout.sats < 2 ^ 63 := by
    intro payout hpayout
    obtain ⟨output, houtput⟩ := exists_pays_of_mem sha256 hpays
      (hsubset (List.mem_map_of_mem hpayout))
    have hsats := sats_lt_of_mem sha256 config job qsort drawKey env now registry hpayout
    have hvalue : (output.valueSats : Int) = jsonAmount payout.sats := by rw [houtput.value]
    have hnonneg : 0 ≤ jsonAmount payout.sats := by
      rw [← hvalue]
      exact Int.natCast_nonneg _
    exact ⟨Option.isSome_of_eq_some houtput.script, lt_of_jsonAmount_nonneg hsats hnonneg⟩
  refine ⟨hpayouts, ?_⟩
  -- one output more than payouts, or none
  have hlength := hpays.length_eq
  have hwritten := (forall₂_pays sha256 hpayouts).length_eq
  rw [paidOutputs, List.length_append, ← hwritten] at hlength
  have hlt := (supplierSats sha256 config job).toNat_lt
  split at hcommitted
  · next hpos =>
    refine Or.inr ⟨?_, lt_of_jsonAmount_nonneg hlt hpos.le⟩
    by_contra hdust
    rw [supplierOutputs_of_lt sha256 config job (not_le.mp hdust), List.length_nil] at hlength
    split at hcommitted
    · cases hcommitted
      rw [List.length_cons] at hlength
      omega
    · cases hcommitted
  · next hpos =>
    cases hcommitted
    have hdust : (supplierSats sha256 config job).toNat < chirpMinPayoutSats := by
      by_contra hge
      obtain ⟨_, _, -, -, houtputs⟩ := supplierOutputs_of_ge sha256 config job (not_lt.mp hge)
      rw [houtputs, List.length_singleton] at hlength
      omega
    have hsmall : (supplierSats sha256 config job).toNat < 2 ^ 63 := hdust.trans (by decide)
    rw [jsonAmount_eq hsmall] at hpos
    refine Or.inl (UInt64.toNat_inj.mp ?_)
    rw [UInt64.toNat_zero]
    omega

theorem payments_of_payable
    (hpayouts : ∀ payout ∈
      (chirpGlueSplit sha256 config job qsort drawKey env now registry).payouts,
        (addr2OutputScript sha256 payout.addr.bytes).isSome = true ∧ payout.sats < 2 ^ 63)
    (hsupplier : supplierSats sha256 config job = 0 ∨
      chirpMinPayoutSats ≤ (supplierSats sha256 config job).toNat ∧
        (supplierSats sha256 config job).toNat < 2 ^ 63) :
    ∃ payments, committedPayments
        (chirpSnapshot (chirpGlueSnapshot sha256 config job qsort drawKey env now registry)) =
          some payments ∧
      List.Forall₂ (Pays sha256) payments
        (paidOutputs sha256 config job qsort drawKey env now registry) := by
  have hlisted := pyPayoutList_chirpGlueSnapshot sha256 config job qsort drawKey env now registry
    fun payout hpayout => (hpayouts payout hpayout).1
  have hpays := forall₂_pays sha256 hpayouts
  rw [committedPayments_eq (pyIntAt_supplier_sats _) hlisted, chirpSnapshot_supplier,
    chirpGlueSnapshot_supplierSats, chirpGlueSnapshot_supplier]
  rcases hsupplier with hzero | ⟨hge, hlt⟩
  · refine ⟨payoutPayments sha256 config job qsort drawKey env now registry, ?_, ?_⟩
    · have hnone : ¬ jsonAmount (supplierSats sha256 config job).toNat > 0 := by
        rw [hzero, UInt64.toNat_zero, jsonAmount_eq (by decide)]
        exact lt_irrefl _
      rw [if_neg hnone]
    · rw [paidOutputs, supplierOutputs_of_zero sha256 config job hzero]
      exact hpays
  · obtain ⟨supplier, script, hsome, hscript, houtputs⟩ :=
      supplierOutputs_of_ge sha256 config job hge
    have hutf8 := validUtf8_of_decodes sha256 (Option.isSome_of_eq_some hscript)
    have hpos : 0 < (supplierSats sha256 config job).toNat := lt_of_lt_of_le (by decide) hge
    refine ⟨(supplier.bytes, ((supplierSats sha256 config job).toNat : Int)) ::
      payoutPayments sha256 config job qsort drawKey env now registry, ?_, ?_⟩
    · rw [jsonAmount_eq hlt, if_pos (Int.natCast_pos.mpr hpos), hsome, Option.map_some,
        Option.getD_some, Json.ofText, if_pos hutf8]
    · rw [paidOutputs, houtputs]
      exact .cons ⟨hscript, rfl⟩ hpays

theorem pool_total_iff
    (hpayouts : ∀ payout ∈
      (chirpGlueSplit sha256 config job qsort drawKey env now registry).payouts,
        (addr2OutputScript sha256 payout.addr.bytes).isSome = true)
    (hsupplier : supplierSats sha256 config job = 0 ∨
      chirpMinPayoutSats ≤ (supplierSats sha256 config job).toNat) :
    pyIntAt (chirpSnapshot (chirpGlueSnapshot sha256 config job qsort drawKey env now registry))
        "pool_total" =
      some ((job.coinbaseValue.toNat : Int) -
        outputsTotal (paidOutputs sha256 config job qsort drawKey env now registry)) ↔
    (chirpGlueSplit sha256 config job qsort drawKey env now registry).poolTotal < 2 ^ 63 := by
  have htotal := leftover_eq sha256 config job qsort drawKey env now registry hpayouts hsupplier
  have hleft : (job.coinbaseValue.toNat : Int) -
      outputsTotal (paidOutputs sha256 config job qsort drawKey env now registry) =
        (chirpGlueSplit sha256 config job qsort drawKey env now registry).poolTotal := by
    omega
  have hvalue := job.coinbaseValue.toNat_lt
  rw [pyIntAt_pool_total, chirpGlueSnapshot_poolTotal, hleft, Option.some.injEq]
  constructor
  · intro heq
    apply lt_of_jsonAmount_nonneg (by omega)
    rw [heq]
    exact Int.natCast_nonneg _
  · exact jsonAmount_eq

/-! ## When the checks pass -/

variable {outs : List UInt8 → Option Nat}

theorem payoutsPresent_payments_iff
    (hpayouts : ∀ payout ∈
      (chirpGlueSplit sha256 config job qsort drawKey env now registry).payouts,
        (addr2OutputScript sha256 payout.addr.bytes).isSome = true ∧ payout.sats < 2 ^ 63) :
    payoutsPresent outs (payoutPayments sha256 config job qsort drawKey env now registry) =
        some true ↔
      ∀ payout ∈ (chirpGlueSplit sha256 config job qsort drawKey env now registry).payouts,
        isTestnetBase58 payout.addr.bytes = false ∧
          ∀ output ∈ payoutOutput sha256 payout,
            outs output.outputScript = some output.valueSats := by
  rw [payoutsPresent_iff, payoutPayments, List.forall_mem_map]
  apply forall₂_congr
  intro payout hpayout
  obtain ⟨hdecode, hlt⟩ := hpayouts payout hpayout
  obtain ⟨script, hscript⟩ := Option.isSome_iff_exists.mp hdecode
  rw [jsonAmount_eq hlt, pyPaysExactly_of_decoded hscript, payoutOutput, hscript]
  simp

theorem supplierPaid_glue_iff (hpos : ∀ spk total, outs spk = some total → 0 < total)
    (hsupplier : supplierSats sha256 config job = 0 ∨
      chirpMinPayoutSats ≤ (supplierSats sha256 config job).toNat ∧
        (supplierSats sha256 config job).toNat < 2 ^ 63) :
    supplierPaid
        (chirpSnapshot (chirpGlueSnapshot sha256 config job qsort drawKey env now registry)) outs =
          some true ↔
      (∀ supplier ∈ chirpSupplier config job, validUtf8 supplier.bytes = true →
        (addr2OutputScript sha256 supplier.bytes).isSome = true ∧
          isTestnetBase58 supplier.bytes = false ∧
          chirpMinPayoutSats ≤ (supplierSats sha256 config job).toNat) ∧
      ∀ output ∈ supplierOutputs sha256 config job,
        outs output.outputScript = some output.valueSats := by
  rw [supplierPaid_iff, chirpGlueSnapshot_supplier, chirpGlueSnapshot_supplierSats]
  rcases hsupplier with hzero | ⟨hge, hlt⟩
  · -- nothing is paid, and the table has no zero
    have hdust : ¬ chirpMinPayoutSats ≤ (supplierSats sha256 config job).toNat := by
      rw [hzero]
      decide
    have hnever : ∀ addr, pyPaysExactly outs addr
        (jsonAmount (supplierSats sha256 config job).toNat) ≠ some true := by
      intro addr hpays
      obtain ⟨spk, total, -, houts, htotal⟩ := pyPaysExactly_iff.mp hpays
      have hspk := hpos spk total houts
      rw [hzero, UInt64.toNat_zero, jsonAmount_eq (by decide)] at htotal
      omega
    rw [supplierOutputs_of_zero sha256 config job hzero]
    cases hsome : chirpSupplier config job with
    | none => simp
    | some supplier =>
      have hne : supplier.bytes ≠ [] := by
        rw [chirpSupplier] at hsome
        split at hsome
        · next hset =>
          cases hsome
          simp only [Bool.and_eq_true, Bool.not_eq_true', List.isEmpty_eq_false_iff] at hset
          exact hset.2
        · cases hsome
      simp only [Option.map_some, Option.getD_some, Option.mem_some_iff, forall_eq',
        List.not_mem_nil, false_implies, implies_true, and_true, hdust, and_false]
      exact ⟨fun h hutf8 => hnever _ (h hne hutf8), fun h _ hutf8 => (h hutf8).elim⟩
  · obtain ⟨supplier, script, hsome, hscript, houtputs⟩ :=
      supplierOutputs_of_ge sha256 config job hge
    have hdecode := Option.isSome_of_eq_some hscript
    have hutf8 := validUtf8_of_decodes sha256 hdecode
    have hne : supplier.bytes ≠ [] := by
      intro hnil
      rw [hnil] at hdecode
      simp [addr2OutputScript] at hdecode
    rw [houtputs, hsome, Option.map_some, Option.getD_some, jsonAmount_eq hlt,
      pyPaysExactly_of_decoded hscript]
    simp [hne, hutf8, hge, hdecode]

/-- What every coinbase of the job pays to a script. -/
def paidTo (poolScript : List UInt8) : List UInt8 → Option Nat :=
  Tally.tally ((paidOutputs sha256 config job qsort drawKey env now registry ++
    leftoverOutput poolScript (job.coinbaseValue.toNat -
      outputsTotal (paidOutputs sha256 config job qsort drawKey env now registry))).map
        fun o => (o.outputScript, o.valueSats))

theorem paid_pos (poolScript : List UInt8) : ∀ entry ∈
    (paidOutputs sha256 config job qsort drawKey env now registry).map
        (fun o => (o.outputScript, o.valueSats)) ++
      (leftoverOutput poolScript (job.coinbaseValue.toNat -
        outputsTotal (paidOutputs sha256 config job qsort drawKey env now registry))).map
          fun o => (o.outputScript, o.valueSats), 0 < entry.2 := by
  intro entry hentry
  rw [← List.map_append] at hentry
  obtain ⟨o, ho, rfl⟩ := List.mem_map.mp hentry
  rw [List.mem_append] at ho
  rcases ho with hpaid | hleft
  · obtain ⟨hge, -⟩ := mem_paidOutputs sha256 config job qsort drawKey env now registry hpaid
    exact lt_of_lt_of_le (by decide) hge
  · rw [leftoverOutput] at hleft
    split at hleft
    · cases hleft
    · next hne =>
      rw [List.mem_singleton] at hleft
      subst hleft
      exact Nat.pos_of_ne_zero hne

/-- Every output can be read back from the table exactly when no script is paid
    twice. -/
theorem paidTo_iff (poolScript : List UInt8) :
    (∀ output ∈ paidOutputs sha256 config job qsort drawKey env now registry,
      paidTo sha256 config job qsort drawKey env now registry poolScript output.outputScript =
        some output.valueSats) ↔
    ((paidOutputs sha256 config job qsort drawKey env now registry ++
      leftoverOutput poolScript (job.coinbaseValue.toNat -
        outputsTotal (paidOutputs sha256 config job qsort drawKey env now registry))).map
          DatumTxnOutput.outputScript).Nodup := by
  have hrest : ((leftoverOutput poolScript (job.coinbaseValue.toNat -
      outputsTotal (paidOutputs sha256 config job qsort drawKey env now registry))).map
        fun o => (o.outputScript, o.valueSats)).length ≤ 1 := by
    rw [List.length_map, leftoverOutput]
    split <;> simp
  have hiff := Tally.forall_tally_eq_iff
    (paid_pos sha256 config job qsort drawKey env now registry poolScript) hrest
  rw [← List.map_append, List.map_map, List.forall_mem_map] at hiff
  exact hiff

/-- The checks on every coinbase that carries all outputs. -/
theorem checks_iff {poolAddress poolScript : List UInt8}
    (hpool : addr2OutputScript sha256 poolAddress = some poolScript) (hash32 : Hash32)
    (hpayouts : ∀ payout ∈
      (chirpGlueSplit sha256 config job qsort drawKey env now registry).payouts,
        (addr2OutputScript sha256 payout.addr.bytes).isSome = true ∧ payout.sats < 2 ^ 63)
    (hsupplier : supplierSats sha256 config job = 0 ∨
      chirpMinPayoutSats ≤ (supplierSats sha256 config job).toNat ∧
        (supplierSats sha256 config job).toNat < 2 ^ 63) :
    (∀ vout, CarriesAll job.coinbaseValue.toNat poolScript
        ({ outputScript := commitmentScript hash32, valueSats := 0 } ::
          paidOutputs sha256 config job qsort drawKey env now registry) vout →
      coinbaseChecks
        (chirpSnapshot (chirpGlueSnapshot sha256 config job qsort drawKey env now registry))
        (payoutPayments sha256 config job qsort drawKey env now registry) vout = some true) ↔
    (∀ payout ∈ (chirpGlueSplit sha256 config job qsort drawKey env now registry).payouts,
      isTestnetBase58 payout.addr.bytes = false) ∧
    (∀ supplier ∈ chirpSupplier config job, validUtf8 supplier.bytes = true →
      (addr2OutputScript sha256 supplier.bytes).isSome = true ∧
        isTestnetBase58 supplier.bytes = false ∧
        chirpMinPayoutSats ≤ (supplierSats sha256 config job).toNat) ∧
    ((paidOutputs sha256 config job qsort drawKey env now registry ++
      leftoverOutput poolScript (job.coinbaseValue.toNat -
        outputsTotal (paidOutputs sha256 config job qsort drawKey env now registry))).map
          DatumTxnOutput.outputScript).Nodup := by
  have hpos : ∀ spk total,
      paidTo sha256 config job qsort drawKey env now registry poolScript spk = some total →
        0 < total := by
    intro spk total htotal
    rw [paidTo, List.map_append] at htotal
    exact Tally.tally_pos
      (paid_pos sha256 config job qsort drawKey env now registry poolScript) htotal
  have htable : (∀ vout, CarriesAll job.coinbaseValue.toNat poolScript
      ({ outputScript := commitmentScript hash32, valueSats := 0 } ::
        paidOutputs sha256 config job qsort drawKey env now registry) vout →
      coinbaseChecks
        (chirpSnapshot (chirpGlueSnapshot sha256 config job qsort drawKey env now registry))
        (payoutPayments sha256 config job qsort drawKey env now registry) vout = some true) ↔
      payoutsPresent (paidTo sha256 config job qsort drawKey env now registry poolScript)
          (payoutPayments sha256 config job qsort drawKey env now registry) = some true ∧
        supplierPaid
          (chirpSnapshot (chirpGlueSnapshot sha256 config job qsort drawKey env now registry))
          (paidTo sha256 config job qsort drawKey env now registry poolScript) = some true := by
    constructor
    · intro h
      have hcarries : CarriesAll job.coinbaseValue.toNat poolScript
          ({ outputScript := commitmentScript hash32, valueSats := 0 } ::
            paidOutputs sha256 config job qsort drawKey env now registry) _ :=
        ⟨[], List.forall_mem_nil _, List.Perm.refl _⟩
      have hchecks := coinbaseChecks_iff.mp (h _ hcarries)
      rwa [pyOuts_of_carriesAll sha256 config job qsort drawKey env now registry hpool hcarries]
        at hchecks
    · intro h vout hcarries
      rw [coinbaseChecks_iff,
        pyOuts_of_carriesAll sha256 config job qsort drawKey env now registry hpool hcarries]
      exact h
  rw [htable, payoutsPresent_payments_iff sha256 config job qsort drawKey env now registry hpayouts,
    supplierPaid_glue_iff sha256 config job qsort drawKey env now registry hpos hsupplier,
    ← paidTo_iff, paidOutputs]
  simp only [List.forall_mem_append, List.mem_filterMap, forall_exists_index, and_imp]
  constructor
  · rintro ⟨hpresent, hcond, houtputs⟩
    exact ⟨fun payout hpayout => (hpresent payout hpayout).1, hcond, houtputs,
      fun output payout hpayout houtput => (hpresent payout hpayout).2 output houtput⟩
  · rintro ⟨htestnet, hcond, houtputs, hrest⟩
    exact ⟨fun payout hpayout => ⟨htestnet payout hpayout,
      fun output houtput => hrest output payout hpayout houtput⟩, hcond, houtputs⟩

/-- Where the verifier reproduces the split, `main` runs its checks on these
    payouts. -/
theorem recomputeSplit_chirpGlueSnapshot
    (h : VerifierReproduces qsort drawKey
      (chirpGlueSnapshot sha256 config job qsort drawKey env now registry))
    (hpayouts : ∀ payout ∈
      (chirpGlueSplit sha256 config job qsort drawKey env now registry).payouts,
        payout.sats < 2 ^ 63) :
    recomputeSplit drawKey
        (chirpSnapshot (chirpGlueSnapshot sha256 config job qsort drawKey env now registry)) =
      some {
        payouts := payoutPayments sha256 config job qsort drawKey env now registry
        poolTotal :=
          (chirpGlueSplit sha256 config job qsort drawKey env now registry).poolTotal } := by
  have hpaid : payoutPayments sha256 config job qsort drawKey env now registry =
      (chirpGlueSplit sha256 config job qsort drawKey env now registry).payouts.map pyPaid := by
    apply List.map_congr_left
    intro payout hpayout
    rw [jsonAmount_eq (hpayouts payout hpayout), pyPaid]
  rw [hpaid]
  exact h

/-- A supplier that is paid at all is paid above dust. -/
theorem payable_supplier
    (hcond : ∀ supplier ∈ chirpSupplier config job, validUtf8 supplier.bytes = true →
      (addr2OutputScript sha256 supplier.bytes).isSome = true ∧
        isTestnetBase58 supplier.bytes = false ∧
        chirpMinPayoutSats ≤ (supplierSats sha256 config job).toNat)
    (hlt : (supplierSats sha256 config job).toNat < 2 ^ 63) :
    supplierSats sha256 config job = 0 ∨
      chirpMinPayoutSats ≤ (supplierSats sha256 config job).toNat ∧
        (supplierSats sha256 config job).toNat < 2 ^ 63 := by
  cases hscript : supplierScript sha256 config job with
  | none => exact Or.inl (supplierSats_eq_zero sha256 config job hscript)
  | some script =>
    obtain ⟨supplier, hsome, hdecode⟩ := Option.bind_eq_some_iff.mp hscript
    have hutf8 := validUtf8_of_decodes sha256 (Option.isSome_of_eq_some hdecode)
    exact Or.inr ⟨(hcond supplier hsome hutf8).2.2, hlt⟩

variable (jsonDumps : Json → List UInt8) (blake2b256 : List UInt8 → Hash32)

/-- A job pays what its snapshot commits to exactly when the supplier and every
    winner can be paid, each to a script of its own. -/
theorem paysSnapshot_iff_payable {poolAddress poolScript : List UInt8}
    (henabled : env.snapshotCommit = true)
    (hpool : addr2OutputScript sha256 poolAddress = some poolScript) :
    (∀ fill,
      chirpGlueFillOutputs sha256 config job qsort drawKey jsonDumps blake2b256 env now registry =
        some fill → PaysSnapshot sha256 jsonDumps blake2b256 job poolScript fill) ↔
    (job.coinbaseValue ≠ 0 →
      SnapshotPayable sha256 config job qsort drawKey env now registry poolScript) := by
  by_cases hvalue : job.coinbaseValue = 0
  · simp [chirpGlueFillOutputs, hvalue]
  · have hfill := chirpGlueFillOutputs_eq sha256 config job qsort drawKey jsonDumps blake2b256 env
      now registry hvalue
    rw [commitmentOutputs, if_pos henabled, List.singleton_append] at hfill
    rw [hfill]
    simp only [Option.some.injEq, forall_eq', ne_eq, hvalue, not_false_eq_true, forall_true_left]
    have htotal : ∀ outputs, outputsTotal (commitmentOutput jsonDumps blake2b256
        (chirpGlueSnapshot sha256 config job qsort drawKey env now registry) :: outputs) =
          outputsTotal outputs := by
      intro outputs
      simp [outputsTotal, commitmentOutput]
    constructor
    · rintro ⟨⟨payments, rest, hcommitted, houtputs, hpays⟩, hleftover,
        listed, hlisted, hchecks⟩
      obtain rfl : paidOutputs sha256 config job qsort drawKey env now registry = rest :=
        (List.cons.inj houtputs).2
      obtain ⟨hpayouts, hsupplier⟩ :=
        payable_of_payments sha256 config job qsort drawKey env now
        registry hcommitted hpays
      have hdecode := fun payout hpayout => (hpayouts payout hpayout).1
      have hpart := hsupplier.imp_right And.left
      have hpool_total := (pool_total_iff sha256 config job qsort drawKey env now registry hdecode
        hpart).mp (by rw [hleftover]; exact congrArg _ (congrArg _ (congrArg _ (htotal _))))
      rw [pyPayoutList_chirpGlueSnapshot sha256 config job qsort drawKey env now registry hdecode,
        Option.some.injEq] at hlisted
      subst hlisted
      obtain ⟨htestnet, hcond, hdistinct⟩ := (checks_iff sha256 config job qsort drawKey env now
        registry hpool _ hpayouts hsupplier).mp hchecks
      have heq := leftover_eq sha256 config job qsort drawKey env now registry hdecode hpart
      rw [← heq, Nat.add_sub_cancel_left] at hdistinct
      refine ⟨fun payout hpayout => ⟨hdecode payout hpayout, htestnet payout hpayout⟩, hcond,
        hdistinct, ?_⟩
      rw [List.forall_mem_cons, List.forall_mem_cons, List.forall_mem_map]
      refine ⟨hpool_total, ?_, fun payout hpayout => (hpayouts payout hpayout).2⟩
      rcases hsupplier with hzero | ⟨-, hlt⟩
      · rw [hzero]
        decide
      · exact hlt
    · intro hpayable
      obtain ⟨hpool_total, hsats, hamounts⟩ := by
        have hamounts := hpayable.amounts
        rw [List.forall_mem_cons, List.forall_mem_cons, List.forall_mem_map] at hamounts
        exact hamounts
      have hdecode := fun payout hpayout => (hpayable.payouts payout hpayout).1
      have hpayouts := fun payout hpayout =>
        And.intro (hdecode payout hpayout) (hamounts payout hpayout)
      have hsupplier := payable_supplier sha256 config job hpayable.supplier hsats
      have hpart := hsupplier.imp_right And.left
      have heq := leftover_eq sha256 config job qsort drawKey env now registry hdecode hpart
      obtain ⟨payments, hcommitted, hpays⟩ :=
        payments_of_payable sha256 config job qsort drawKey
        env now registry hpayouts hsupplier
      have hdistinct := hpayable.distinct
      rw [← Nat.add_sub_cancel_left (outputsTotal (paidOutputs sha256 config job qsort drawKey env
        now registry)) (ChirpSplit.poolTotal _), heq] at hdistinct
      refine ⟨⟨payments, _, hcommitted, rfl, hpays⟩, ?_, _,
        pyPayoutList_chirpGlueSnapshot sha256 config job qsort drawKey env now registry hdecode,
        ?_⟩
      · refine ((pool_total_iff sha256 config job qsort drawKey env now registry hdecode
          hpart).mpr hpool_total).trans ?_
        exact congrArg _ (congrArg _ (congrArg _ (htotal _).symm))
      · exact (checks_iff sha256 config job qsort drawKey env now registry hpool _ hpayouts
          hsupplier).mpr ⟨fun payout hpayout => (hpayable.payouts payout hpayout).2,
            hpayable.supplier, hdistinct⟩

end Fill

/-! ## Two registries -/

/-- The default settings, without supplier templates. -/
def defaultConfig : ChirpConfig where
  miningBlake2bTemplate := false
  miningTemplateSupplierBps := 300
  miningChirpFeeBps := 90
  share_left := by decide

/-- An environment that sets nothing. -/
def emptyEnv : ChirpEnv where
  snapshotCommit := true
  minDays := none
  minPower := none
  daysFull := none
  powerFull := none

/-- A member with a month of work, under this name. -/
def seasonedMiner (name : List UInt8) : ChirpMiner where
  addr := .copy name
  firstSeen := 1
  lastSeen := 1000000
  activeSecs := 86400 * 30
  shares := [{ ts := 1000000, work := 5000000 }]

def memberAddress : List UInt8 := ascii "bc1qw508d6qejxtdg4y5r3zarvary0c5xw7kv8f3t4"

def poolAddress : List UInt8 :=
  ascii "bc1p0xlxvlhemja6c4dqv22uapctqupfhlxm9h8z3k2e72q4k9hcz7vqzk5jj0"

/-- The output key in `poolAddress`, behind `OP_1` and its length. -/
def poolScript : List UInt8 :=
  (addr2OutputScript (fun _ => []) poolAddress).getD []

theorem oneMember_paysSnapshot : ∃ fill,
    chirpGlueFillOutputs (fun _ => []) defaultConfig plainJob (Qsort.insertionSorter _)
      (fun seed addr _ => addrNumber seed addr) (fun _ => [])
      (fun _ => ⟨List.replicate 32 0, rfl⟩)
      emptyEnv 1000000 [seasonedMiner memberAddress] = some fill ∧
    PaysSnapshot (fun _ => []) (fun _ => []) (fun _ => ⟨List.replicate 32 0, rfl⟩) plainJob
      poolScript fill := by
  refine ⟨_, chirpGlueFillOutputs_eq _ _ _ _ _ _ _ _ _ _ (by decide), ?_⟩
  refine (paysSnapshot_iff_payable (fun _ => []) defaultConfig plainJob (Qsort.insertionSorter _)
    (fun seed addr _ => addrNumber seed addr) emptyEnv 1000000 [seasonedMiner memberAddress]
    (fun _ => []) (fun _ => ⟨List.replicate 32 0, rfl⟩) rfl
    (show addr2OutputScript (fun _ => []) poolAddress = some poolScript by decide +kernel)).mpr
    ?_ _ (chirpGlueFillOutputs_eq _ _ _ _ _ _ _ _ _ _ (by decide))
  intro _
  exact {
    payouts := by decide +kernel
    supplier := fun _ hsupplier => nomatch hsupplier
    distinct := by decide +kernel
    amounts := by decide +kernel }

/-- A member that authorized under a name that is no address: it is in the
    snapshot, and not in the coinbase. -/
theorem nameless_not_paysSnapshot : ∃ fill,
    chirpGlueFillOutputs (fun _ => []) defaultConfig plainJob (Qsort.insertionSorter _)
      (fun seed addr _ => addrNumber seed addr) (fun _ => [])
      (fun _ => ⟨List.replicate 32 0, rfl⟩)
      emptyEnv 1000000 [seasonedMiner (ascii "satoshi")] = some fill ∧
    ¬ PaysSnapshot (fun _ => []) (fun _ => []) (fun _ => ⟨List.replicate 32 0, rfl⟩) plainJob
      poolScript fill := by
  refine ⟨_, chirpGlueFillOutputs_eq _ _ _ _ _ _ _ _ _ _ (by decide), ?_⟩
  rintro ⟨⟨payments, rest, hcommitted, houtputs, hpays⟩, -, -⟩
  obtain rfl := (List.cons.inj houtputs).2
  obtain ⟨hdecode, -⟩ := payable_of_payments _ _ _ _ _ _ _ _ hcommitted hpays
  revert hdecode
  decide +kernel

end ChirpGateway
