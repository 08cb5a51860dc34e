import ChirpGateway.Chirp.Snapshot
import ChirpGateway.Lib.Labelled

/-!
# The public verifier

The draw and the split of `recompute` in `tools/verify_chirp_block.py:54-107`,
run on the JSON of a snapshot, and how it relates to the split the snapshot was
written for.
-/

namespace ChirpGateway

open Bytes FloorShare

/-! ## The Python code -/

/-- `int(q)`: truncation toward zero. -/
def pyTruncate (q : Rat) : Int :=
  if 0 ≤ q then ⌊q⌋ else ⌈q⌉

/-- `int(value)`, for the values a snapshot holds; `none` is an exception. -/
def pyInt : Json → Option Int
  | .integer n => some n
  | .bool b => some (if b then 1 else 0)
  | .real q => some (pyTruncate q)
  | .string text => (parseDecimal text).map Int.ofNat
  | _ => none

/-- `bits_to_double`: a weight stands for its bits. -/
def bitsToDouble : Json → Option Rat
  | .real w => some w
  | _ => none

/-- `int(snap[name])`. -/
def pyIntAt (snap : Json) (name : String) : Option Int :=
  (snap.objectGet name).bind pyInt

/-- `xs[:n]`. -/
def pyTake {α : Type} (xs : List α) (n : Int) : List α :=
  if 0 ≤ n then xs.take n.toNat else xs.take (xs.length - (-n).toNat)

/-- One turn of the loop over `snap["candidates"]`: address and weight. -/
def pyCandidate (c : Json) : Option (List UInt8 × Rat) :=
  match (c.objectGet "weight_bits").bind bitsToDouble, c.objectGet "addr" with
  | some wBits, some (.string addr) => some (addr, wBits)
  | _, _ => none

/-- The list `cands`. -/
def pyCandidates (snap : Json) : Option (List (List UInt8 × Rat)) :=
  match snap.objectGet "candidates" with
  | some (.array cs) => cs.mapM pyCandidate
  | _ => none

/-- What `recompute` returns and what it compares `pool_total` with. -/
structure Recomputed where
  payouts : List (List UInt8 × Int)
  poolTotal : Int
  deriving DecidableEq

section Recompute

variable {K : Type} [LinearOrder K] (drawKey : Nat → List UInt8 → Rat → K)

/-- The list `keyed` after its stable sort by falling key. -/
def pyKeyed (seed : Int) (cands : List (List UInt8 × Rat)) : List (K × List UInt8 × Rat) :=
  ((cands.filter fun c => 0 < c.2).map fun c =>
    (drawKey seed.toNat c.1 c.2, c.1, c.2)).insertionSort fun s t => t.1 ≤ s.1

/-- One turn of the payout loop. -/
def pyPayout (distributable : Int) (totalW : Rat) (minPayoutSats : Int)
    (winner : List UInt8 × Rat) : Option (List UInt8 × Int) :=
  let amt := pyTruncate (distributable * (winner.2 / totalW))
  if amt ≥ minPayoutSats then some (winner.1, amt) else none

/-- The draw-and-split part of `recompute`; `none` is an exception. -/
def recomputeSplit (snap : Json) : Option Recomputed := do
  let seed ← pyIntAt snap "seed"
  let ver ← match snap.objectGet "v" with
    | some v => pyInt v
    | none => some 1
  let cands ← pyCandidates snap
  let maxN ← pyIntAt snap "max_n"
  let winners := (pyTake (pyKeyed drawKey seed cands) maxN).map Prod.snd
  let total ← if ver ≥ 2 then pyIntAt snap "split_total" else pyIntAt snap "coinbase_value"
  let feeBps ← pyIntAt snap "fee_bps"
  let baseFee := total * feeBps / 10000
  let distributable := if total > baseFee then total - baseFee else 0
  let totalW := (winners.map Prod.snd).sum
  let minPayoutSats ← pyIntAt snap "min_payout_sats"
  let payouts :=
    if winners ≠ [] ∧ totalW > 0 then
      winners.filterMap (pyPayout distributable totalW minPayoutSats)
    else
      []
  some { payouts, poolTotal := total - (payouts.map Prod.snd).sum }

end Recompute

/-! ## Reading a snapshot -/

/-- Address and weight of a candidate, as Python holds them. -/
def pyMember (c : ChirpCand) : List UInt8 × Rat :=
  (c.addr.bytes, c.weight)

/-- An address that is not UTF-8 is missing from its entry, a `KeyError`. -/
theorem pyCandidate_snapshotCandidate (c : ChirpCand) :
    pyCandidate (snapshotCandidate c) =
      if validUtf8 c.addr.bytes then some (pyMember c) else none := by
  have hbits : (snapshotCandidate c).objectGet "weight_bits" = some (.real c.weight) := by
    rw [snapshotCandidate, Json.objectGet_ofMembers (by simp)]
    rfl
  have haddr : (snapshotCandidate c).objectGet "addr" = Json.ofText c.addr.bytes := by
    rw [snapshotCandidate, Json.objectGet_ofMembers (by simp)]
    cases Json.ofText c.addr.bytes <;> rfl
  rw [pyCandidate, hbits, haddr, Json.ofText]
  cases validUtf8 c.addr.bytes <;> rfl

theorem pyCandidates_chirpSnapshot (input : SnapshotInput) :
    pyCandidates (chirpSnapshot input) =
      if ∀ c ∈ input.cands, validUtf8 c.addr.bytes = true then
        some (input.cands.map pyMember)
      else
        none := by
  rw [pyCandidates, chirpSnapshot_candidates]
  simp only
  induction input.cands with
  | nil => simp
  | cons c cands ih =>
    rw [List.map_cons, List.mapM_cons, pyCandidate_snapshotCandidate, ih]
    by_cases hc : validUtf8 c.addr.bytes = true
    · by_cases hrest : ∀ c ∈ cands, validUtf8 c.addr.bytes = true
      · have hall : ∀ d ∈ c :: cands, validUtf8 d.addr.bytes = true :=
          List.forall_mem_cons.mpr ⟨hc, hrest⟩
        rw [if_pos hc, if_pos hrest, if_pos hall]
        rfl
      · have hall : ¬ ∀ d ∈ c :: cands, validUtf8 d.addr.bytes = true :=
          fun hall => hrest (List.forall_mem_cons.mp hall).2
        rw [if_pos hc, if_neg hrest, if_neg hall]
        rfl
    · have hall : ¬ ∀ d ∈ c :: cands, validUtf8 d.addr.bytes = true :=
        fun hall => hc (List.forall_mem_cons.mp hall).1
      rw [if_neg hc, if_neg hall]
      rfl

/-! ## The draw -/

section Draw

variable {K : Type} [LinearOrder K] {drawKey : Nat → List UInt8 → Rat → K}

/-- With distinct keys Python's stable sort and any `qsort` agree. -/
theorem pyKeyed_eq (qsort : Qsort.Sorter (K × ChirpCand)) {cands : List ChirpCand}
    {seed : UInt64}
    (hkeys : (cands.map fun c => drawKey seed.toNat c.addr.bytes c.weight).Nodup) :
    pyKeyed drawKey seed.toNat (cands.map pyMember) =
      (qsort.sort keyedCmpDesc (chirpKeyed drawKey cands seed)).map fun entry =>
        (entry.1, pyMember entry.2) := by
  have hkeyed : ((cands.map pyMember).filter fun c => 0 < c.2).map (fun c =>
      (drawKey (seed.toNat : Int).toNat c.1 c.2, c.1, c.2)) =
      (chirpKeyed drawKey cands seed).map fun entry => (entry.1, pyMember entry.2) := by
    simp only [chirpKeyed, List.filter_map, Function.comp_def, pyMember, List.map_map,
      Int.toNat_natCast]
    rfl
  have hnodup : ((chirpKeyed drawKey cands seed).map Prod.fst).Nodup := by
    simp only [chirpKeyed, List.map_map, Function.comp_def]
    exact hkeys.sublist (List.filter_sublist.map _)
  have hdistinct : ∀ s ∈ chirpKeyed drawKey cands seed, ∀ t ∈ chirpKeyed drawKey cands seed,
      s.1 = t.1 → s = t := fun s hs t ht => List.inj_on_of_nodup_map hnodup hs ht
  rw [pyKeyed, hkeyed]
  refine List.Perm.eq_of_pairwise ?_ (List.pairwise_insertionSort _ _) ?_
    ((List.perm_insertionSort _ _).trans ((qsort.perm _ _).symm.map _))
  · rintro s t hs ht (hst : t.1 ≤ s.1) (hts : s.1 ≤ t.1)
    obtain ⟨a, ha, rfl⟩ := List.mem_map.mp ((List.perm_insertionSort _ _).mem_iff.mp hs)
    obtain ⟨b, hb, rfl⟩ := List.mem_map.mp ht
    rw [hdistinct a ha b ((qsort.perm _ _).mem_iff.mp hb) (le_antisymm hts hst)]
  · rw [List.pairwise_map]
    exact (qsort.sorted _ _ keyedCmpDesc_consistent).imp fun hab =>
      (keyedCmpDesc_le_zero_iff _ _).mp hab

/-- The winners `recompute` splits among: the draw without the byte budget. -/
theorem pyWinners_eq (qsort : Qsort.Sorter (K × ChirpCand)) {cands : List ChirpCand}
    {seed : UInt64}
    (hkeys : (cands.map fun c => drawKey seed.toNat c.addr.bytes c.weight).Nodup) :
    (pyTake (pyKeyed drawKey seed.toNat (cands.map pyMember)) chirpMaxN).map Prod.snd =
      (chirpWeightedDraw qsort drawKey cands seed chirpMaxN).map pyMember := by
  rw [pyKeyed_eq qsort hkeys, pyTake, if_pos (Int.natCast_nonneg _), chirpWeightedDraw]
  simp only [Int.toNat_natCast, List.map_take, List.map_map, Function.comp_def]

end Draw

/-! ## The split -/

/-- `distributable` in `recompute`, whose integers do not wrap. -/
def verifierDistributable (totalValue : UInt64) (feeBps : UInt16) : Nat :=
  let baseFee := totalValue.toNat * feeBps.toNat / 10000
  if totalValue.toNat > baseFee then totalValue.toNat - baseFee else 0

/-- A payout as `recompute` lists it. -/
def pyPaid (payout : ChirpPayout) : List UInt8 × Int :=
  (payout.addr.bytes, payout.sats)

theorem pyPaid_injective : Function.Injective pyPaid := by
  rintro ⟨⟨bytes, noNul, fits⟩, sats⟩ ⟨⟨bytes', noNul', fits'⟩, sats'⟩ h
  simp only [pyPaid, Prod.mk.injEq, Nat.cast_inj] at h
  obtain ⟨rfl, rfl⟩ := h
  rfl

/-- Both programs round the same share. -/
theorem pyTruncate_share {distributable : Nat} {totalW w : Rat} (hw : 0 ≤ w)
    (htotal : 0 ≤ totalW) :
    pyTruncate ((distributable : Int) * (w / totalW)) = share distributable totalW w := by
  have hpos : 0 ≤ (distributable : Rat) * (w / totalW) :=
    mul_nonneg (Nat.cast_nonneg _) (div_nonneg hw htotal)
  rw [Int.cast_natCast, pyTruncate, if_pos hpos, share]
  exact (Int.natCast_floor_eq_floor hpos).symm

theorem pyPayout_eq {distributable : Nat} {totalW : Rat} {c : ChirpCand} (hc : 0 ≤ c.weight)
    (htotal : 0 ≤ totalW) :
    pyPayout distributable totalW chirpMinPayoutSats (pyMember c) =
      (chirpPayout distributable totalW c).map pyPaid := by
  simp only [pyPayout, chirpPayout, pyMember, pyTruncate_share hc htotal]
  by_cases hdust : share distributable totalW c.weight ≥ chirpMinPayoutSats
  · rw [if_pos hdust, if_pos (by exact_mod_cast hdust)]
    rfl
  · rw [if_neg hdust, if_neg (by exact_mod_cast hdust)]
    rfl

section Split

variable {K : Type} [LinearOrder K] {drawKey : Nat → List UInt8 → Rat → K}

/-- The payouts `recompute` comes to. -/
def pyPayouts (distributable : Int) (drawn : List ChirpCand) : List (List UInt8 × Int) :=
  if drawn.map pyMember ≠ [] ∧ totalWeight drawn > 0 then
    (drawn.map pyMember).filterMap
      (pyPayout distributable (totalWeight drawn) chirpMinPayoutSats)
  else
    []

/-- The total as the snapshot carries it. -/
def pyTotal (totalValue : UInt64) : Int :=
  (totalValue.toNat : Int).bmod (2 ^ 64)

/-- What `recompute` makes of a snapshot of valid addresses. -/
theorem recomputeSplit_chirpSnapshot (qsort : Qsort.Sorter (K × ChirpCand))
    (input : SnapshotInput)
    (hkeys : (input.cands.map fun c =>
      drawKey input.seed.toNat c.addr.bytes c.weight).Nodup) :
    recomputeSplit drawKey (chirpSnapshot input) =
      if ∀ c ∈ input.cands, validUtf8 c.addr.bytes = true then
        let total := pyTotal input.splitTotal
        let baseFee := total * input.feeBps.toNat / 10000
        let payouts := pyPayouts (if total > baseFee then total - baseFee else 0)
          (chirpWeightedDraw qsort drawKey input.cands input.seed chirpMaxN)
        some { payouts, poolTotal := total - (payouts.map Prod.snd).sum }
      else
        none := by
  have hseed : pyIntAt (chirpSnapshot input) "seed" = some (input.seed.toNat : Int) := by
    simp [pyIntAt, chirpSnapshot_seed, pyInt, parseDecimal_decimal]
  have hmax : pyIntAt (chirpSnapshot input) "max_n" = some (chirpMaxN : Int) := by
    simp [pyIntAt, chirpSnapshot_max_n, pyInt]
  have hfee : pyIntAt (chirpSnapshot input) "fee_bps" = some (input.feeBps.toNat : Int) := by
    simp [pyIntAt, chirpSnapshot_fee_bps, pyInt]
  have hmin : pyIntAt (chirpSnapshot input) "min_payout_sats" =
      some (chirpMinPayoutSats : Int) := by
    simp [pyIntAt, chirpSnapshot_min_payout_sats, pyInt]
  have htotal : pyIntAt (chirpSnapshot input) "split_total" =
      some (pyTotal input.splitTotal) := by
    rw [pyIntAt, chirpSnapshot_split_total]
    rfl
  have hwinners := pyWinners_eq qsort hkeys
  have hweight : ∀ drawn : List ChirpCand,
      ((drawn.map pyMember).map Prod.snd).sum = totalWeight drawn := by
    intro drawn
    rw [List.map_map]
    rfl
  rw [recomputeSplit, hseed, chirpSnapshot_v, pyCandidates_chirpSnapshot]
  by_cases hutf8 : ∀ c ∈ input.cands, validUtf8 c.addr.bytes = true
  · rw [if_pos hutf8, if_pos hutf8]
    have hver : (2 : Int) ≥ 2 := le_rfl
    simp only [hmax, hfee, hmin, htotal, pyInt, Option.bind_eq_bind, Option.bind_some, if_pos hver,
      hwinners, hweight]
    rfl
  · rw [if_neg hutf8, if_neg hutf8]
    rfl

/-- Below 2⁶³ the verifier sees the total the split was made of. -/
theorem pyTotal_of_lt {totalValue : UInt64} (hlt : totalValue.toNat < 2 ^ 63) :
    pyTotal totalValue = totalValue.toNat := by
  unfold pyTotal
  generalize totalValue.toNat = total at hlt ⊢
  rw [Int.bmod_eq_of_le] <;> omega

/-- From 2⁶³ on it sees a negative one. -/
theorem pyTotal_neg {totalValue : UInt64} (hle : 2 ^ 63 ≤ totalValue.toNat) :
    pyTotal totalValue < 0 := by
  have hlt := totalValue.toNat_lt
  unfold pyTotal
  generalize totalValue.toNat = total at hle hlt ⊢
  rw [Int.bmod_def]
  omega

theorem verifierDistributable_cast (totalValue : UInt64) (feeBps : UInt16) :
    (verifierDistributable totalValue feeBps : Int) =
      if (totalValue.toNat : Int) > totalValue.toNat * feeBps.toNat / 10000 then
        (totalValue.toNat : Int) - totalValue.toNat * feeBps.toNat / 10000
      else
        0 := by
  simp only [verifierDistributable]
  have hfee : ((totalValue.toNat * feeBps.toNat / 10000 : Nat) : Int) =
      (totalValue.toNat : Int) * feeBps.toNat / 10000 := by push_cast; rfl
  rw [← hfee]
  split <;> split <;> omega

/-- The payout loop of the verifier is the one of the split, run on all drawn
    members. -/
theorem pyPayouts_eq {drawn : List ChirpCand} (hpos : ∀ c ∈ drawn, 0 < c.weight)
    (distributable : Nat) :
    pyPayouts distributable drawn =
      (drawn.filterMap (chirpPayout distributable (totalWeight drawn))).map pyPaid := by
  rw [pyPayouts]
  cases drawn with
  | nil => rfl
  | cons c drawn =>
    have htotal : 0 < totalWeight (c :: drawn) := by
      apply List.sum_pos
      · intro w hw
        obtain ⟨d, hd, rfl⟩ := List.mem_map.mp hw
        exact hpos d hd
      · simp
    rw [if_pos ⟨by simp, htotal⟩, List.map_filterMap, List.filterMap_map]
    apply List.filterMap_congr
    intro d hd
    exact pyPayout_eq (hpos d hd).le htotal.le

/-- The verifier pays nobody a negative amount. -/
theorem sum_pyPayouts_nonneg (distributable : Int) (drawn : List ChirpCand) :
    0 ≤ ((pyPayouts distributable drawn).map Prod.snd).sum := by
  apply List.sum_nonneg
  intro amt hamt
  obtain ⟨payout, hpayout, rfl⟩ := List.mem_map.mp hamt
  rw [pyPayouts] at hpayout
  split at hpayout
  · obtain ⟨winner, -, hwinner⟩ := List.mem_filterMap.mp hpayout
    simp only [pyPayout] at hwinner
    split at hwinner
    · next hge =>
      cases hwinner
      exact le_trans (Int.natCast_nonneg _) hge
    · cases hwinner
  · cases hpayout

/-! ## When the verifier reproduces the split -/

section Reproduce

variable (qsort : Qsort.Sorter (K × ChirpCand)) (drawKey : Nat → List UInt8 → Rat → K)
variable (input : SnapshotInput)

/-- The split `chirp_glue_fill_outputs` commits for these inputs. -/
def committedSplit : ChirpSplit :=
  chirpSplit qsort drawKey input.cands input.splitTotal input.feeBps input.seed

/-- What goes into the snapshot written for that split. -/
def committedInput : SnapshotInput :=
  { input with
    payouts := (committedSplit qsort drawKey input).payouts,
    poolTotal := (committedSplit qsort drawKey input).poolTotal }

/-- That snapshot. -/
def committedSnapshot : Json :=
  chirpSnapshot (committedInput qsort drawKey input)

/-- `recompute` comes to the committed payouts, in order, and to the committed
    leftover. -/
def VerifierReproduces : Prop :=
  recomputeSplit drawKey (committedSnapshot qsort drawKey input) =
    some { payouts := (committedSplit qsort drawKey input).payouts.map pyPaid,
           poolTotal := (committedSplit qsort drawKey input).poolTotal }

/-- The snapshot loses nothing and the byte budget, which only the gateway
    applies, moves no share: each admitted winner gets the same with and without
    the weight of the winners that were cut, and each of those would get dust. -/
structure CutMovesNoShare : Prop where
  utf8 : ∀ c ∈ input.cands, validUtf8 c.addr.bytes = true
  total_lt : input.splitTotal.toNat < 2 ^ 63
  admitted : ∀ c ∈ chirpAdmitted qsort drawKey input.cands input.seed,
    chirpPayout (chirpDistributable input.splitTotal input.feeBps)
        (totalWeight (chirpAdmitted qsort drawKey input.cands input.seed)) c =
      chirpPayout (verifierDistributable input.splitTotal input.feeBps)
        (totalWeight (chirpWeightedDraw qsort drawKey input.cands input.seed chirpMaxN)) c
  cut : ∀ c ∈ chirpWeightedDraw qsort drawKey input.cands input.seed chirpMaxN,
    c ∉ chirpAdmitted qsort drawKey input.cands input.seed →
      chirpPayout (verifierDistributable input.splitTotal input.feeBps)
        (totalWeight (chirpWeightedDraw qsort drawKey input.cands input.seed chirpMaxN)) c = none

theorem chirpPayout_keeps (distributable : Nat) (totalW : Rat) :
    Labelled.Keeps (fun c : ChirpCand => c.addr.bytes) (fun p : ChirpPayout => p.addr.bytes)
      (chirpPayout distributable totalW) := by
  intro c payout hpayout
  simp only [chirpPayout] at hpayout
  split at hpayout
  · cases hpayout
    rfl
  · cases hpayout

theorem chirpWeightedDraw_addrs_nodup {cands : List ChirpCand} {seed : UInt64} {n : Nat}
    (haddrs : (cands.map fun c => c.addr.bytes).Nodup) :
    ((chirpWeightedDraw qsort drawKey cands seed n).map fun c => c.addr.bytes).Nodup := by
  have horder : ((chirpDrawOrder qsort drawKey cands seed).map fun c => c.addr.bytes).Nodup :=
    ((chirpDrawOrder_perm qsort drawKey cands seed).map _).nodup_iff.mpr
      (haddrs.sublist (List.filter_sublist.map _))
  rw [chirpWeightedDraw_eq_take]
  exact horder.sublist ((List.take_sublist _ _).map _)

/-- The payouts and the leftover in the snapshot do not change what `recompute`
    makes of it. -/
theorem recompute_committedSnapshot
    (hkeys : (input.cands.map fun c =>
      drawKey input.seed.toNat c.addr.bytes c.weight).Nodup) :
    recomputeSplit drawKey (committedSnapshot qsort drawKey input) =
      if ∀ c ∈ input.cands, validUtf8 c.addr.bytes = true then
        let total := pyTotal input.splitTotal
        let baseFee := total * input.feeBps.toNat / 10000
        let payouts := pyPayouts (if total > baseFee then total - baseFee else 0)
          (chirpWeightedDraw qsort drawKey input.cands input.seed chirpMaxN)
        some { payouts, poolTotal := total - (payouts.map Prod.snd).sum }
      else
        none :=
  recomputeSplit_chirpSnapshot qsort (committedInput qsort drawKey input) hkeys

/-- On a total below 2⁶³ and valid addresses, `recompute` runs the payout loop of
    the split over all drawn members. -/
theorem recomputeSplit_committedSnapshot
    (hkeys : (input.cands.map fun c =>
      drawKey input.seed.toNat c.addr.bytes c.weight).Nodup)
    (hutf8 : ∀ c ∈ input.cands, validUtf8 c.addr.bytes = true)
    (hlt : input.splitTotal.toNat < 2 ^ 63) :
    recomputeSplit drawKey (committedSnapshot qsort drawKey input) =
      let drawn := chirpWeightedDraw qsort drawKey input.cands input.seed chirpMaxN
      let payouts := (drawn.filterMap (chirpPayout
        (verifierDistributable input.splitTotal input.feeBps) (totalWeight drawn))).map pyPaid
      some { payouts, poolTotal := input.splitTotal.toNat - (payouts.map Prod.snd).sum } := by
  have hpos : ∀ c ∈ chirpWeightedDraw qsort drawKey input.cands input.seed chirpMaxN,
      0 < c.weight := by
    intro c hc
    rw [chirpWeightedDraw_eq_take] at hc
    exact weight_pos_of_mem_drawOrder qsort drawKey (List.mem_of_mem_take hc)
  rw [recompute_committedSnapshot qsort drawKey input hkeys, if_pos hutf8]
  simp only [pyTotal_of_lt hlt]
  rw [← verifierDistributable_cast, pyPayouts_eq hpos]

theorem sum_map_pyPaid (payouts : List ChirpPayout) :
    ((payouts.map pyPaid).map Prod.snd).sum = ((payouts.map ChirpPayout.sats).sum : Nat) := by
  induction payouts with
  | nil => rfl
  | cons payout payouts ih =>
    simp only [List.map_cons, List.sum_cons, ih, pyPaid, Nat.cast_add]

/-- A verifier that reproduces the split has read every address and a total that
    is not negative. -/
theorem lossless_of_verifierReproduces
    (hkeys : (input.cands.map fun c =>
      drawKey input.seed.toNat c.addr.bytes c.weight).Nodup)
    (h : VerifierReproduces qsort drawKey input) :
    (∀ c ∈ input.cands, validUtf8 c.addr.bytes = true) ∧ input.splitTotal.toNat < 2 ^ 63 := by
  rw [VerifierReproduces, recompute_committedSnapshot qsort drawKey input hkeys] at h
  by_cases hutf8 : ∀ c ∈ input.cands, validUtf8 c.addr.bytes = true
  · refine ⟨hutf8, ?_⟩
    rw [if_pos hutf8] at h
    by_contra hge
    have hneg := pyTotal_neg (not_lt.mp hge)
    have hpool := congrArg Recomputed.poolTotal (Option.some.inj h)
    have hsum := sum_pyPayouts_nonneg
      (if pyTotal input.splitTotal > pyTotal input.splitTotal * input.feeBps.toNat / 10000 then
        pyTotal input.splitTotal - pyTotal input.splitTotal * input.feeBps.toNat / 10000 else 0)
      (chirpWeightedDraw qsort drawKey input.cands input.seed chirpMaxN)
    simp only at hpool
    have hsplit : (0 : Int) ≤ (committedSplit qsort drawKey input).poolTotal :=
      Int.natCast_nonneg _
    omega
  · rw [if_neg hutf8] at h
    cases h

/-- A fee of at most the whole is taken alike. -/
theorem verifierDistributable_eq {totalValue : UInt64} {feeBps : UInt16}
    (hfee : feeBps.toNat ≤ 10000) :
    verifierDistributable totalValue feeBps = chirpDistributable totalValue feeBps := by
  obtain ⟨heq, -⟩ := chirpBaseFee_eq totalValue hfee
  simp only [verifierDistributable, chirpDistributable, heq]

/-- Where every drawn member fits the coinbase nothing is cut. -/
theorem cutMovesNoShare_of_fits
    (hutf8 : ∀ c ∈ input.cands, validUtf8 c.addr.bytes = true)
    (hlt : input.splitTotal.toNat < 2 ^ 63) (hfee : input.feeBps.toNat ≤ 10000)
    (hfits : ((chirpWeightedDraw qsort drawKey input.cands input.seed chirpMaxN).map
      fun c => chirpOutputBytes c.addr.bytes).sum ≤ chirpOutputBudgetBytes) :
    CutMovesNoShare qsort drawKey input := by
  have hall : chirpAdmitted qsort drawKey input.cands input.seed =
      chirpWeightedDraw qsort drawKey input.cands input.seed chirpMaxN :=
    Budget.takeWithin_eq_self (by rwa [Nat.zero_add])
  refine ⟨hutf8, hlt, ?_, ?_⟩
  · intro c _
    rw [hall, verifierDistributable_eq hfee]
  · intro c hc hnot
    rw [hall] at hnot
    exact absurd hc hnot

/-- With distinct draw keys the verifier reproduces the split exactly when the
    snapshot loses nothing and the cut by bytes moves no share. -/
theorem verifierReproduces_iff_cutMovesNoShare (addrKey : Nat → List UInt8 → K)
    (hkeys : (input.cands.map fun c => addrKey input.seed.toNat c.addr.bytes).Nodup) :
    VerifierReproduces qsort (fun seed addr _ => addrKey seed addr) input ↔
      CutMovesNoShare qsort (fun seed addr _ => addrKey seed addr) input := by
  set drawKey : Nat → List UInt8 → Rat → K := fun seed addr _ => addrKey seed addr
  have haddrs : (input.cands.map fun c => c.addr.bytes).Nodup := by
    have hcomp : (input.cands.map fun c => addrKey input.seed.toNat c.addr.bytes) =
        (input.cands.map fun c => c.addr.bytes).map (addrKey input.seed.toNat) := by
      rw [List.map_map]
      rfl
    rw [hcomp] at hkeys
    exact hkeys.of_map _
  -- the drawn members are the admitted ones and behind them the ones cut
  obtain ⟨rest, hdrawn⟩ : chirpAdmitted qsort drawKey input.cands input.seed <+:
      chirpWeightedDraw qsort drawKey input.cands input.seed chirpMaxN :=
    Budget.takeWithin_isFront _ _
  have hnodup : ((chirpAdmitted qsort drawKey input.cands input.seed ++ rest).map
      fun c => c.addr.bytes).Nodup := by
    rw [hdrawn]
    exact chirpWeightedDraw_addrs_nodup qsort drawKey haddrs
  have hselect := Labelled.filterMap_eq_append_iff
    (chirpPayout_keeps (chirpDistributable input.splitTotal input.feeBps)
      (totalWeight (chirpAdmitted qsort drawKey input.cands input.seed)))
    (chirpPayout_keeps (verifierDistributable input.splitTotal input.feeBps)
      (totalWeight (chirpWeightedDraw qsort drawKey input.cands input.seed chirpMaxN))) hnodup
  rw [hdrawn] at hselect
  have hcut : ∀ c ∈ chirpWeightedDraw qsort drawKey input.cands input.seed chirpMaxN,
      c ∉ chirpAdmitted qsort drawKey input.cands input.seed ↔ c ∈ rest := by
    intro c hc
    rw [← hdrawn, List.mem_append] at hc
    refine ⟨hc.resolve_left, ?_⟩
    intro hrest hadmitted
    exact (List.nodup_append.mp hnodup.of_map).2.2 c hadmitted c hrest rfl
  have hrest : ∀ c ∈ rest,
      c ∈ chirpWeightedDraw qsort drawKey input.cands input.seed chirpMaxN :=
    fun c hc => hdrawn ▸ List.mem_append_right _ hc
  have hpayouts := chirpSplit_payouts qsort drawKey input.cands input.seed input.splitTotal
    input.feeBps
  constructor
  · intro h
    obtain ⟨hutf8, hlt⟩ := lossless_of_verifierReproduces qsort drawKey input hkeys h
    rw [VerifierReproduces, recomputeSplit_committedSnapshot qsort drawKey input hkeys hutf8 hlt]
      at h
    have hlists := congrArg Recomputed.payouts (Option.some.inj h)
    have hsame := List.map_injective_iff.mpr pyPaid_injective hlists
    rw [committedSplit, hpayouts] at hsame
    obtain ⟨hadmitted, hnone⟩ := hselect.mp hsame.symm
    exact ⟨hutf8, hlt, hadmitted, fun c hc hnot => hnone c ((hcut c hc).mp hnot)⟩
  · intro h
    have hsame := hselect.mpr ⟨h.admitted, fun c hc =>
      h.cut c (hrest c hc) ((hcut c (hrest c hc)).mpr hc)⟩
    rw [VerifierReproduces,
      recomputeSplit_committedSnapshot qsort drawKey input hkeys h.utf8 h.total_lt]
    simp only
    rw [← hsame, ← hpayouts, sum_map_pyPaid]
    have hassigned := assigned_le qsort drawKey input.cands input.seed input.splitTotal
      input.feeBps
    have hle := chirpDistributable_le input.splitTotal input.feeBps
    have hpool := chirpSplit_poolTotal qsort drawKey input.cands input.seed input.splitTotal
      input.feeBps
    simp only [committedSplit, hpool, ChirpSplit.assigned] at hassigned ⊢
    rw [Nat.cast_sub (hassigned.trans hle)]

end Reproduce

end Split

/-- A job of height 1 without a supplier. -/
def plainJob : SplitJob where
  height := 1
  prevhashBin := List.replicate 32 0
  coinbaseValue := 100000000
  carouselSupplier := .copy []

/-- A draw over these candidates with the default fee. -/
def plainInput (cands : List ChirpCand) : SnapshotInput where
  job := plainJob
  now := 0
  seed := plainJob.seed
  cands := cands
  payouts := []
  poolTotal := 0
  feeBps := 90
  supplier := none
  supplierBps := 0
  supplierSats := 0
  splitTotal := 100000000

/-- A draw key that reads the address as a number. -/
def addrNumber (_seed : Nat) (addr : List UInt8) : Nat :=
  addr.foldl (fun n byte => 256 * n + byte.toNat) 0

theorem twoMembers_reproduced :
    VerifierReproduces (Qsort.insertionSorter _) (fun seed addr _ => addrNumber seed addr)
      (plainInput twoMembers) := by
  refine (verifierReproduces_iff_cutMovesNoShare (Qsort.insertionSorter _)
    (plainInput twoMembers) addrNumber (by decide +kernel)).mpr ?_
  exact cutMovesNoShare_of_fits _ _ _ (by decide +kernel) (by decide +kernel) (by decide +kernel)
    (by decide +kernel)

/-- 345 members of equal weight, whose outputs need 43 bytes each: one more than
    the budget admits. -/
def manyMembers : List ChirpCand :=
  (List.range 345).map fun i =>
    { addr := .copy (ascii "bc1p" ++ [UInt8.ofNat (90 - i / 20), UInt8.ofNat (90 - i % 20)]),
      weight := 1, activeSecs := 0, power := 0 }

/-- The verifier counts the member that was cut and comes to other amounts. -/
theorem manyMembers_not_reproduced :
    ((plainInput manyMembers).cands.map fun c => addrNumber 0 c.addr.bytes).Nodup ∧
      ¬ VerifierReproduces (Qsort.insertionSorter _) (fun seed addr _ => addrNumber seed addr)
        (plainInput manyMembers) := by
  constructor
  · have hchain : ((plainInput manyMembers).cands.map fun c =>
        addrNumber 0 c.addr.bytes).IsChain (· > ·) := by decide +kernel
    exact (List.isChain_iff_pairwise.mp hchain).imp ne_of_gt
  · unfold VerifierReproduces
    decide +kernel

end ChirpGateway
