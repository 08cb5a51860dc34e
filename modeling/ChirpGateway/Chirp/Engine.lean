import ChirpGateway.Lib.Budget
import ChirpGateway.Lib.Buffer
import ChirpGateway.Lib.Bytes
import ChirpGateway.Lib.FloorShare
import ChirpGateway.Lib.Qsort
import Mathlib.Data.Rat.Floor

/-!
# The CHIRP engine

The weighted draw and the split of `datum_chirp.c:101-161`. Weights are exact
rationals and the draw key of a member is a value of any linear order: the
division in a share is exact, and nothing depends on how `pow` rounds. The order
`qsort` gives equal keys is left open.
-/

namespace ChirpGateway

open Bytes

/-- `CHIRP_MAX_N`. -/
def chirpMaxN : Nat := 490

/-- `CHIRP_OUTPUT_BUDGET_BYTES`. -/
def chirpOutputBudgetBytes : Nat := 14800

/-- `CHIRP_MIN_PAYOUT_SATS`. -/
def chirpMinPayoutSats : Nat := 1000

/-- `CHIRP_ADDR_MAX`. -/
def chirpAddrMax : Nat := 128

/-- A `char addr[CHIRP_ADDR_MAX]` with its terminator. -/
structure ChirpAddr where
  bytes : List UInt8
  noNul : 0 ∉ bytes
  fits : bytes.length < chirpAddrMax
  deriving DecidableEq

/-- `strncpy` of a C string into such a field. -/
def ChirpAddr.copy (text : List UInt8) : ChirpAddr where
  bytes := (Buffer.cString text).take (chirpAddrMax - 1)
  noNul hmem := Buffer.zero_notMem_cString text (List.mem_of_mem_take hmem)
  fits := by
    rw [List.length_take]
    have : chirpAddrMax = 128 := rfl
    omega

/-- Copying a string that came out of such a field changes nothing. -/
@[simp] theorem ChirpAddr.copy_bytes (addr : ChirpAddr) : ChirpAddr.copy addr.bytes = addr := by
  obtain ⟨bytes, noNul, fits⟩ := addr
  simp only [ChirpAddr.copy, ChirpAddr.mk.injEq]
  rw [Buffer.cString_eq_self noNul, List.take_of_length_le (Nat.le_sub_one_of_lt fits)]

/-- `chirp_cand_t`. -/
structure ChirpCand where
  addr : ChirpAddr
  weight : Rat
  activeSecs : Rat
  power : Rat
  deriving DecidableEq

/-- `chirp_payout_t`. -/
structure ChirpPayout where
  addr : ChirpAddr
  sats : Nat
  deriving DecidableEq

/-- `chirp_output_bytes`: value, length byte and script, guessed from how the
    address is spelled. -/
def chirpOutputBytes (addr : List UInt8) : Nat :=
  let l := addr.length
  let script :=
    if l > 4 && (ascii "bc1q").isPrefixOf addr then
      if l ≤ 44 then 22 else 34
    else if l > 4 && (ascii "bc1p").isPrefixOf addr then 34
    else if (ascii "1").isPrefixOf addr then 25
    else if (ascii "3").isPrefixOf addr then 23
    else 34
  9 + script

/-! ## The draw -/

section Draw

variable {K : Type} [LinearOrder K]

/-- `keyed_cmp_desc`. -/
def keyedCmpDesc (a b : K × ChirpCand) : Int :=
  if a.1 < b.1 then 1 else if b.1 < a.1 then -1 else 0

theorem keyedCmpDesc_le_zero_iff (a b : K × ChirpCand) :
    keyedCmpDesc a b ≤ 0 ↔ b.1 ≤ a.1 := by
  unfold keyedCmpDesc
  rcases lt_trichotomy a.1 b.1 with hlt | heq | hgt
  · simp [hlt]
  · simp [heq]
  · simp [hgt, hgt.le, not_lt.mpr hgt.le]

theorem keyedCmpDesc_consistent : Qsort.Consistent (keyedCmpDesc (K := K)) :=
  Qsort.consistent_of_key Prod.fst keyedCmpDesc_le_zero_iff

variable (qsort : Qsort.Sorter (K × ChirpCand)) (drawKey : Nat → List UInt8 → Rat → K)

/-- The `keyed_t` array: members of positive weight with their draw keys. -/
def chirpKeyed (cands : List ChirpCand) (seed : UInt64) : List (K × ChirpCand) :=
  (cands.filter fun c => 0 < c.weight).map fun c => (drawKey seed.toNat c.addr.bytes c.weight, c)

/-- All drawable members, in the order of the draw. -/
def chirpDrawOrder (cands : List ChirpCand) (seed : UInt64) : List ChirpCand :=
  (qsort.sort keyedCmpDesc (chirpKeyed drawKey cands seed)).map Prod.snd

/-- `chirp_weighted_draw`. -/
def chirpWeightedDraw (cands : List ChirpCand) (seed : UInt64) (n : Nat) : List ChirpCand :=
  ((qsort.sort keyedCmpDesc (chirpKeyed drawKey cands seed)).take n).map Prod.snd

theorem chirpWeightedDraw_eq_take (cands : List ChirpCand) (seed : UInt64) (n : Nat) :
    chirpWeightedDraw qsort drawKey cands seed n =
      (chirpDrawOrder qsort drawKey cands seed).take n := by
  simp only [chirpWeightedDraw, chirpDrawOrder, List.map_take]

omit [LinearOrder K] in
theorem chirpKeyed_map_snd (cands : List ChirpCand) (seed : UInt64) :
    (chirpKeyed drawKey cands seed).map Prod.snd = cands.filter fun c => 0 < c.weight := by
  simp [chirpKeyed, Function.comp_def]

/-- The draw orders exactly the members of positive weight. -/
theorem chirpDrawOrder_perm (cands : List ChirpCand) (seed : UInt64) :
    (chirpDrawOrder qsort drawKey cands seed).Perm (cands.filter fun c => 0 < c.weight) := by
  rw [← chirpKeyed_map_snd drawKey cands seed]
  exact (qsort.perm _ _).map _

/-- Nobody comes after a member with a smaller key. -/
theorem chirpDrawOrder_sorted (cands : List ChirpCand) (seed : UInt64) :
    (chirpDrawOrder qsort drawKey cands seed).Pairwise fun a b =>
      drawKey seed.toNat b.addr.bytes b.weight ≤ drawKey seed.toNat a.addr.bytes a.weight := by
  have hsorted := qsort.sorted _ (chirpKeyed drawKey cands seed) keyedCmpDesc_consistent
  rw [chirpDrawOrder, List.pairwise_map]
  refine hsorted.imp_of_mem ?_
  intro a b ha hb hab
  rw [keyedCmpDesc_le_zero_iff] at hab
  have hkey : ∀ entry ∈ qsort.sort keyedCmpDesc (chirpKeyed drawKey cands seed),
      entry.1 = drawKey seed.toNat entry.2.addr.bytes entry.2.weight := by
    intro entry hentry
    have hmem := (qsort.perm _ _).mem_iff.mp hentry
    simp only [chirpKeyed, List.mem_map] at hmem
    obtain ⟨c, -, rfl⟩ := hmem
    rfl
  rwa [← hkey a ha, ← hkey b hb]

theorem weight_pos_of_mem_drawOrder {cands : List ChirpCand} {seed : UInt64} {c : ChirpCand}
    (hc : c ∈ chirpDrawOrder qsort drawKey cands seed) : 0 < c.weight := by
  have hmem := (chirpDrawOrder_perm qsort drawKey cands seed).mem_iff.mp hc
  simpa using (List.mem_filter.mp hmem).2

end Draw

end ChirpGateway
