import Mathlib.Algebra.Group.Nat.Defs
import Mathlib.Data.List.Basic

/-!
# Block templates

The fields of `T_DATUM_TEMPLATE_DATA` that the modelled functions read, with what
`datum_gbt_parser` (`datum_blocktemplates.c:262-517`) has checked about them.
-/

namespace ChirpGateway

/-- `T_DATUM_TEMPLATE_DATA`, as the parser returns it. -/
structure DatumTemplate where
  height : UInt32
  coinbasevalue : UInt64
  sizelimit : UInt64
  weightlimit : UInt64
  /-- internal byte order -/
  previousblockhashBin : List UInt8
  /-- text, as the node sent it -/
  defaultWitnessCommitment : List UInt8
  headerVersion : UInt32
  blake2bHeadline : List UInt8
  txnTotalWeight : UInt32
  txnTotalSize : UInt32
  coinbasevalue_ne : coinbasevalue ≠ 0
  witnessCommitment_length :
    38 ≤ defaultWitnessCommitment.length ∧ defaultWitnessCommitment.length ≤ 95
  headline_length : blake2bHeadline.length ≤ 100
  /-- three times the transactions fit `local_data` -/
  txnTotalSize_lt : txnTotalSize.toNat < 2 ^ 24

/-! ## What the sample templates have in common -/

theorem sampleValue_ne : (312500000 : UInt64) ≠ 0 := by decide

theorem noHeadline_length : ([] : List UInt8).length ≤ 100 := Nat.zero_le _

theorem noTransactions_lt : (0 : UInt32).toNat < 2 ^ 24 := by decide

end ChirpGateway
