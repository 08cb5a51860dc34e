import ChirpGateway.Chirp.Split
import ChirpGateway.Rpc.Json

/-!
# The committed snapshot

The JSON object `chirp_snapshot_commit` writes (`datum_chirp_glue.c:135-200`):
what the draw saw and what came out of it. Members whose value is `NULL` are
left out, as `json_object_set_new` does: `json_string` is `NULL` on text that is
not UTF-8, which an address cut at 127 bytes can be.
-/

namespace ChirpGateway

open Bytes

namespace Json

/-- `json_string`. -/
def ofText (text : List UInt8) : Option Json :=
  if validUtf8 text then some (.string text) else none

/-- An object built member by member with `json_object_set_new`. -/
def ofMembers (members : List (String × Option Json)) : Json :=
  .object (members.filterMap fun entry => entry.2.map (entry.1, ·))

end Json

/-- The fields of the job that CHIRP reads. -/
structure SplitJob where
  height : UInt64
  prevhashBin : List UInt8
  coinbaseValue : UInt64
  carouselSupplier : ChirpAddr

/-- `seed`: the first eight bytes of `prevhash_bin`, little-endian. -/
def SplitJob.seed (job : SplitJob) : UInt64 :=
  UInt64.ofNat ((job.prevhashBin.take 8).foldr (fun byte rest => byte.toNat + 256 * rest) 0)

/-- Two lower-case hex digits. -/
def hexByte (byte : UInt8) : List UInt8 :=
  let digit (n : Nat) : UInt8 := UInt8.ofNat (if n < 10 then 48 + n else 87 + n)
  [digit (byte.toNat / 16), digit (byte.toNat % 16)]

/-- What `chirp_glue_fill_outputs` hands to `chirp_snapshot_commit`. -/
structure SnapshotInput where
  job : SplitJob
  now : UInt64
  seed : UInt64
  cands : List ChirpCand
  payouts : List ChirpPayout
  poolTotal : Nat
  feeBps : UInt16
  supplier : Option (List UInt8)
  supplierBps : UInt16
  supplierSats : UInt64
  splitTotal : UInt64

/-- An entry of `candidates`. The weight stands for the bits of the double. -/
def snapshotCandidate (cand : ChirpCand) : Json :=
  .ofMembers
    [("addr", Json.ofText cand.addr.bytes),
      ("active_secs", some (.integer ⌊cand.activeSecs⌋)),
      ("power", some (.integer ⌊cand.power⌋)),
      ("weight_bits", some (.real cand.weight))]

/-- An entry of `payouts`. -/
def snapshotPayout (payout : ChirpPayout) : Json :=
  .ofMembers [("addr", Json.ofText payout.addr.bytes), ("sats", some (.ofUInt64 payout.sats))]

/-- The members of the object, without the registry listing and the four
    thresholds, which only the gate checks of the verifier read. -/
def snapshotMembers (input : SnapshotInput) : List (String × Option Json) :=
  [("v", some (.integer 2)),
    ("tag", Json.ofText (ascii "CHIRP1")),
    ("height", some (.ofUInt64 input.job.height.toNat)),
    ("prevhash", Json.ofText (input.job.prevhashBin.reverse.flatMap hexByte)),
    ("seed", Json.ofText (decimal input.seed.toNat)),
    ("ts", some (.ofUInt64 input.now.toNat)),
    ("coinbase_value", some (.ofUInt64 input.job.coinbaseValue.toNat)),
    ("fee_bps", some (.integer input.feeBps.toNat)),
    ("max_n", some (.integer chirpMaxN)),
    ("min_payout_sats", some (.ofUInt64 chirpMinPayoutSats)),
    ("supplier", Json.ofText (input.supplier.getD [])),
    ("supplier_bps", some (.integer input.supplierBps.toNat)),
    ("supplier_sats", some (.ofUInt64 input.supplierSats.toNat)),
    ("split_total", some (.ofUInt64 input.splitTotal.toNat)),
    ("candidates", some (.array (input.cands.map snapshotCandidate))),
    ("payouts", some (.array (input.payouts.map snapshotPayout))),
    ("pool_total", some (.ofUInt64 input.poolTotal))]

/-- The object whose canonical text `chirp_snapshot_commit` hashes. -/
def chirpSnapshot (input : SnapshotInput) : Json :=
  .ofMembers (snapshotMembers input)

/-- Looking a member up is looking it up in the list it was built from, as long
    as no name occurs twice. -/
theorem Json.objectGet_ofMembers {members : List (String × Option Json)}
    (hnames : (members.map Prod.fst).Nodup) (name : String) :
    (Json.ofMembers members).objectGet name = (members.lookup name).join := by
  simp only [Json.ofMembers, Json.objectGet]
  induction members with
  | nil => rfl
  | cons entry members ih =>
    obtain ⟨key, value⟩ := entry
    obtain ⟨hfresh, hrest⟩ := List.nodup_cons.mp hnames
    by_cases hname : name = key
    · subst hname
      cases value with
      | some value => simp
      | none =>
        have habsent : members.lookup name = none := by
          rw [List.lookup_eq_none_iff]
          intro entry hentry
          simp only [bne_iff_ne, ne_eq]
          rintro rfl
          exact hfresh (List.mem_map.mpr ⟨entry, hentry, rfl⟩)
        have hrec := ih hrest
        rw [habsent] at hrec
        simpa using hrec
    · have hbeq : (name == key) = false := by simpa using hname
      cases value <;> simp [List.lookup_cons, hbeq, ih hrest]

/-! ## Reading the snapshot back -/

section Lookup

variable (input : SnapshotInput)

theorem chirpSnapshot_get (name : String) :
    (chirpSnapshot input).objectGet name = ((snapshotMembers input).lookup name).join := by
  rw [chirpSnapshot, Json.objectGet_ofMembers]
  simp [snapshotMembers]

theorem chirpSnapshot_v : (chirpSnapshot input).objectGet "v" = some (.integer 2) := by
  rw [chirpSnapshot_get]
  rfl

theorem chirpSnapshot_seed :
    (chirpSnapshot input).objectGet "seed" = some (.string (decimal input.seed.toNat)) := by
  rw [chirpSnapshot_get]
  simp [snapshotMembers, List.lookup_cons, Json.ofText, validUtf8_decimal]

theorem chirpSnapshot_fee_bps :
    (chirpSnapshot input).objectGet "fee_bps" = some (.integer input.feeBps.toNat) := by
  rw [chirpSnapshot_get]
  rfl

theorem chirpSnapshot_max_n :
    (chirpSnapshot input).objectGet "max_n" = some (.integer chirpMaxN) := by
  rw [chirpSnapshot_get]
  rfl

theorem chirpSnapshot_min_payout_sats :
    (chirpSnapshot input).objectGet "min_payout_sats" = some (.integer chirpMinPayoutSats) := by
  rw [chirpSnapshot_get]
  rfl

theorem chirpSnapshot_split_total :
    (chirpSnapshot input).objectGet "split_total" =
      some (.ofUInt64 input.splitTotal.toNat) := by
  rw [chirpSnapshot_get]
  rfl

theorem chirpSnapshot_candidates :
    (chirpSnapshot input).objectGet "candidates" =
      some (.array (input.cands.map snapshotCandidate)) := by
  rw [chirpSnapshot_get]
  rfl

end Lookup

end ChirpGateway
