import ChirpGateway.Chirp.Engine

/-!
# The CHIRP split

`chirp_split` (`datum_chirp.c:140-161`): the pool keeps its fee, the drawn
members that fit the coinbase share the rest by weight, and what rounding and
the dust limit leave over stays with the pool.
-/

namespace ChirpGateway

open Bytes FloorShare

/-- What `chirp_split` returns: the payouts and `*pool_total`. -/
structure ChirpSplit where
  payouts : List ChirpPayout
  poolTotal : Nat

namespace ChirpSplit

/-- The sum of the payouts. -/
def assigned (split : ChirpSplit) : Nat :=
  (split.payouts.map ChirpPayout.sats).sum

end ChirpSplit

/-- `base_fee`: the product is taken in 128 bits, the quotient stored in 64. -/
def chirpBaseFee (totalValue : UInt64) (feeBps : UInt16) : Nat :=
  totalValue.toNat * feeBps.toNat / 10000 % 2 ^ 64

/-- `distributable`. -/
def chirpDistributable (totalValue : UInt64) (feeBps : UInt16) : Nat :=
  let baseFee := chirpBaseFee totalValue feeBps
  if totalValue.toNat > baseFee then totalValue.toNat - baseFee else 0

/-- `total_w`. -/
def totalWeight (winners : List ChirpCand) : Rat :=
  (winners.map ChirpCand.weight).sum

/-- One turn of the payout loop: the member's share, unless it is dust. -/
def chirpPayout (distributable : Nat) (totalW : Rat) (winner : ChirpCand) : Option ChirpPayout :=
  let amt := share distributable totalW winner.weight
  if amt ≥ chirpMinPayoutSats then some { addr := winner.addr, sats := amt } else none

section Split

variable {K : Type} [LinearOrder K]
variable (qsort : Qsort.Sorter (K × ChirpCand)) (drawKey : Nat → List UInt8 → Rat → K)

/-- The winners that take part: the draw, cut where the coinbase is full. -/
def chirpAdmitted (cands : List ChirpCand) (seed : UInt64) : List ChirpCand :=
  Budget.takeWithin (fun c => chirpOutputBytes c.addr.bytes) chirpOutputBudgetBytes 0
    (chirpWeightedDraw qsort drawKey cands seed chirpMaxN)

/-- `chirp_split`. -/
def chirpSplit (cands : List ChirpCand) (totalValue : UInt64) (feeBps : UInt16)
    (seed : UInt64) : ChirpSplit :=
  let winners := chirpAdmitted qsort drawKey cands seed
  let totalW := totalWeight winners
  if winners.isEmpty || totalW ≤ 0 then
    { payouts := [], poolTotal := totalValue.toNat }
  else
    let payouts := winners.filterMap (chirpPayout (chirpDistributable totalValue feeBps) totalW)
    let assigned := (payouts.map ChirpPayout.sats).sum
    { payouts, poolTotal := if totalValue.toNat > assigned then totalValue.toNat - assigned else 0 }

/-! ## The fee -/

theorem chirpDistributable_le (totalValue : UInt64) (feeBps : UInt16) :
    chirpDistributable totalValue feeBps ≤ totalValue.toNat := by
  simp only [chirpDistributable]
  split <;> omega

/-- A fee of at most the whole never wraps. -/
theorem chirpBaseFee_eq {feeBps : UInt16} (totalValue : UInt64) (hfee : feeBps.toNat ≤ 10000) :
    chirpBaseFee totalValue feeBps = totalValue.toNat * feeBps.toNat / 10000 ∧
      totalValue.toNat * feeBps.toNat / 10000 ≤ totalValue.toNat := by
  have hle : totalValue.toNat * feeBps.toNat / 10000 ≤ totalValue.toNat := by
    apply Nat.div_le_of_le_mul
    rw [Nat.mul_comm 10000]
    exact Nat.mul_le_mul_left _ hfee
  exact ⟨Nat.mod_eq_of_lt (lt_of_le_of_lt hle totalValue.toNat_lt), hle⟩

/-- The fee and the part to distribute make up the whole. -/
theorem chirpDistributable_add_fee {feeBps : UInt16} (totalValue : UInt64)
    (hfee : feeBps.toNat ≤ 10000) :
    chirpDistributable totalValue feeBps + totalValue.toNat * feeBps.toNat / 10000 =
      totalValue.toNat := by
  obtain ⟨heq, hle⟩ := chirpBaseFee_eq totalValue hfee
  simp only [chirpDistributable, heq]
  split <;> omega

/-! ## The winners -/

variable {qsort drawKey} {cands : List ChirpCand} {seed : UInt64}

theorem chirpAdmitted_isFront :
    chirpAdmitted qsort drawKey cands seed <+: chirpDrawOrder qsort drawKey cands seed := by
  refine (Budget.takeWithin_isFront _ _).trans ?_
  rw [chirpWeightedDraw_eq_take]
  exact List.take_prefix _ _

theorem chirpAdmitted_length_le :
    (chirpAdmitted qsort drawKey cands seed).length ≤ chirpMaxN := by
  refine (Budget.takeWithin_isFront _ _).length_le.trans ?_
  rw [chirpWeightedDraw_eq_take, List.length_take]
  exact min_le_left _ _

theorem chirpAdmitted_bytes_le :
    ((chirpAdmitted qsort drawKey cands seed).map fun c => chirpOutputBytes c.addr.bytes).sum ≤
      chirpOutputBudgetBytes := by
  rw [← Nat.zero_add (List.sum _)]
  exact Budget.takeWithin_cost_le 0 _ (Nat.zero_le _)

/-- No longer prefix of the draw is within both limits. -/
theorem prefix_chirpAdmitted {winners : List ChirpCand}
    (hfront : winners <+: chirpDrawOrder qsort drawKey cands seed)
    (hlength : winners.length ≤ chirpMaxN)
    (hbytes : (winners.map fun c => chirpOutputBytes c.addr.bytes).sum ≤ chirpOutputBudgetBytes) :
    winners <+: chirpAdmitted qsort drawKey cands seed := by
  refine Budget.prefix_takeWithin 0 ?_ (by rwa [Nat.zero_add])
  rw [chirpWeightedDraw_eq_take, List.prefix_take_iff]
  exact ⟨hfront, hlength⟩

/-- Each entry of the list takes part at most once. -/
theorem chirpAdmitted_subperm : (chirpAdmitted qsort drawKey cands seed).Subperm cands :=
  chirpAdmitted_isFront.sublist.subperm.trans
    (((chirpDrawOrder_perm qsort drawKey cands seed).subperm).trans
      List.filter_sublist.subperm)

theorem weight_pos_of_mem_admitted {c : ChirpCand}
    (hc : c ∈ chirpAdmitted qsort drawKey cands seed) : 0 < c.weight :=
  weight_pos_of_mem_drawOrder qsort drawKey (chirpAdmitted_isFront.subset hc)

theorem totalWeight_admitted_pos (hne : chirpAdmitted qsort drawKey cands seed ≠ []) :
    0 < totalWeight (chirpAdmitted qsort drawKey cands seed) := by
  apply List.sum_pos
  · intro w hw
    obtain ⟨c, hc, rfl⟩ := List.mem_map.mp hw
    exact weight_pos_of_mem_admitted hc
  · simpa using hne

/-! ## The payouts -/

variable (qsort drawKey cands seed)

/-- The two exits agree with the loop on no winners at all. -/
theorem chirpSplit_payouts (totalValue : UInt64) (feeBps : UInt16) :
    (chirpSplit qsort drawKey cands totalValue feeBps seed).payouts =
      (chirpAdmitted qsort drawKey cands seed).filterMap
        (chirpPayout (chirpDistributable totalValue feeBps)
          (totalWeight (chirpAdmitted qsort drawKey cands seed))) := by
  simp only [chirpSplit]
  split
  · next hexit =>
    by_cases hne : chirpAdmitted qsort drawKey cands seed = []
    · rw [hne]
      rfl
    · have hpos := totalWeight_admitted_pos hne
      simp [hne, not_le.mpr hpos] at hexit
  · rfl

/-- A member that is not dropped for dust is paid its share. -/
theorem filterMap_chirpPayout (distributable : Nat) (totalW : Rat) (winners : List ChirpCand) :
    winners.filterMap (chirpPayout distributable totalW) =
      (winners.filter fun c => chirpMinPayoutSats ≤ share distributable totalW c.weight).map
        fun c => { addr := c.addr, sats := share distributable totalW c.weight } := by
  induction winners with
  | nil => rfl
  | cons c winners ih =>
    simp only [List.filterMap_cons, List.filter_cons, chirpPayout, ge_iff_le, decide_eq_true_eq]
    by_cases hdust : chirpMinPayoutSats ≤ share distributable totalW c.weight
    · simp only [hdust, if_true, List.map_cons, List.cons.injEq, true_and]
      exact ih
    · simp only [hdust, if_false]
      exact ih

/-- Dropping dust only lowers the sum of the shares. -/
theorem assigned_le (totalValue : UInt64) (feeBps : UInt16) :
    (chirpSplit qsort drawKey cands totalValue feeBps seed).assigned ≤
      chirpDistributable totalValue feeBps := by
  rw [ChirpSplit.assigned, chirpSplit_payouts, filterMap_chirpPayout, List.map_map]
  by_cases hne : chirpAdmitted qsort drawKey cands seed = []
  · simp [hne]
  · have hpos := totalWeight_admitted_pos hne
    have hkept : ((chirpAdmitted qsort drawKey cands seed).filter fun c =>
        chirpMinPayoutSats ≤ share (chirpDistributable totalValue feeBps)
          (totalWeight (chirpAdmitted qsort drawKey cands seed)) c.weight).Sublist
        (chirpAdmitted qsort drawKey cands seed) := List.filter_sublist
    refine le_trans ((hkept.map _).sum_le_sum (fun _ _ => Nat.zero_le _)) ?_
    have hweights : ∀ w ∈ (chirpAdmitted qsort drawKey cands seed).map ChirpCand.weight,
        0 ≤ w := by
      intro w hw
      obtain ⟨c, hc, rfl⟩ := List.mem_map.mp hw
      exact (weight_pos_of_mem_admitted hc).le
    have hshares : (((chirpAdmitted qsort drawKey cands seed).map ChirpCand.weight).map
        (share (chirpDistributable totalValue feeBps)
          (totalWeight (chirpAdmitted qsort drawKey cands seed)))).sum ≤
        chirpDistributable totalValue feeBps := sum_share_le hweights hpos le_rfl
    rwa [List.map_map] at hshares

theorem chirpSplit_poolTotal (totalValue : UInt64) (feeBps : UInt16) :
    (chirpSplit qsort drawKey cands totalValue feeBps seed).poolTotal =
      totalValue.toNat - (chirpSplit qsort drawKey cands totalValue feeBps seed).assigned := by
  simp only [chirpSplit, ChirpSplit.assigned]
  split
  · simp
  · simp only
    split <;> omega

/-- Nothing below the dust limit is paid. -/
theorem sats_ge_of_mem_payouts {totalValue : UInt64} {feeBps : UInt16} {payout : ChirpPayout}
    (hpayout : payout ∈ (chirpSplit qsort drawKey cands totalValue feeBps seed).payouts) :
    chirpMinPayoutSats ≤ payout.sats := by
  rw [chirpSplit_payouts, filterMap_chirpPayout] at hpayout
  obtain ⟨c, hc, rfl⟩ := List.mem_map.mp hpayout
  simpa using (List.mem_filter.mp hc).2

/-- Everything `chirp_split` promises for one draw. -/
structure FairSplit (cands : List ChirpCand) (drawOrder admitted : List ChirpCand)
    (totalValue : UInt64) (feeBps : UInt16) (split : ChirpSplit) : Prop where
  /-- no satoshi is lost or invented -/
  conserved : split.assigned + split.poolTotal = totalValue.toNat
  /-- the pool gets at least its fee -/
  fee_le : totalValue.toNat * feeBps.toNat / 10000 ≤ split.poolTotal
  /-- the admitted winners are the longest prefix of the draw within both limits -/
  admitted_front : admitted <+: drawOrder
  admitted_length : admitted.length ≤ chirpMaxN
  admitted_bytes :
    (admitted.map fun c => chirpOutputBytes c.addr.bytes).sum ≤ chirpOutputBudgetBytes
  admitted_longest : ∀ winners, winners <+: drawOrder → winners.length ≤ chirpMaxN →
    (winners.map fun c => chirpOutputBytes c.addr.bytes).sum ≤ chirpOutputBudgetBytes →
      winners <+: admitted
  /-- no entry of the candidate list takes part twice -/
  admitted_once : admitted.Subperm cands
  /-- exactly the admitted winners above dust are paid, in the order of the draw, each its
      share of the distributable part by its weight among the admitted -/
  payouts_eq : split.payouts =
    (admitted.filter fun c => chirpMinPayoutSats ≤
        share (totalValue.toNat - totalValue.toNat * feeBps.toNat / 10000)
          (totalWeight admitted) c.weight).map
      fun c => { addr := c.addr,
                 sats := share (totalValue.toNat - totalValue.toNat * feeBps.toNat / 10000)
                   (totalWeight admitted) c.weight }
  sats_ge : ∀ payout ∈ split.payouts, chirpMinPayoutSats ≤ payout.sats

/-- Every split of every candidate list is conserved and fair. -/
theorem chirpSplit_fairSplit (totalValue : UInt64) (feeBps : UInt16)
    (hfee : feeBps.toNat ≤ 10000) :
    FairSplit cands (chirpDrawOrder qsort drawKey cands seed)
      (chirpAdmitted qsort drawKey cands seed) totalValue feeBps
      (chirpSplit qsort drawKey cands totalValue feeBps seed) := by
  have hassigned := assigned_le qsort drawKey cands seed totalValue feeBps
  have hpool := chirpSplit_poolTotal qsort drawKey cands seed totalValue feeBps
  have hsum := chirpDistributable_add_fee totalValue hfee
  have hdistributable : chirpDistributable totalValue feeBps =
      totalValue.toNat - totalValue.toNat * feeBps.toNat / 10000 := by omega
  have hpayouts := chirpSplit_payouts qsort drawKey cands seed totalValue feeBps
  rw [filterMap_chirpPayout, hdistributable] at hpayouts
  exact {
    conserved := by omega
    fee_le := by omega
    admitted_front := chirpAdmitted_isFront
    admitted_length := chirpAdmitted_length_le
    admitted_bytes := chirpAdmitted_bytes_le
    admitted_longest := fun _ => prefix_chirpAdmitted
    admitted_once := chirpAdmitted_subperm
    payouts_eq := hpayouts
    sats_ge := fun _ => sats_ge_of_mem_payouts qsort drawKey cands seed }

end Split

/-- Two members, the second with a quarter of the weight. -/
def twoMembers : List ChirpCand :=
  [{ addr := .copy (ascii "1first"), weight := 4, activeSecs := 0, power := 0 },
    { addr := .copy (ascii "3second"), weight := 1, activeSecs := 0, power := 0 }]

/-- A split of 10 000 with the default fee, ordered by weight. -/
theorem chirpSplit_twoMembers :
    (chirpSplit (Qsort.insertionSorter _) (fun _ _ w => w) twoMembers 10000 90 7).payouts =
        [{ addr := .copy (ascii "1first"), sats := 7928 },
          { addr := .copy (ascii "3second"), sats := 1982 }] ∧
      FairSplit twoMembers
        (chirpDrawOrder (Qsort.insertionSorter _) (fun _ _ w => w) twoMembers 7)
        (chirpAdmitted (Qsort.insertionSorter _) (fun _ _ w => w) twoMembers 7) 10000 90
        (chirpSplit (Qsort.insertionSorter _) (fun _ _ w => w) twoMembers 10000 90 7) :=
  ⟨by decide +kernel,
    chirpSplit_fairSplit (Qsort.insertionSorter _) (fun _ _ w => w) twoMembers 7 10000 90
      (by decide)⟩

end ChirpGateway
