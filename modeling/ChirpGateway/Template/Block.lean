import ChirpGateway.Lib.Bytes
import ChirpGateway.Template.Data
import Mathlib.Algebra.GroupWithZero.Nat

/-!
# Templates with their transactions

The rest of `T_DATUM_TEMPLATE_DATA` that a block is made from: the fields of the
header and the transactions.
-/

namespace ChirpGateway

open Bytes

/-- `T_DATUM_TEMPLATE_TXN`, with the raw transaction as bytes. -/
structure TemplateTxn where
  txidBin : Hash32
  data : List UInt8
  deriving DecidableEq

/-- A template and what its block is made from. -/
structure BlockTemplate extends DatumTemplate where
  version : UInt32
  bitsUint : UInt32
  curtime : UInt64
  mintime : UInt64
  headerTransactionCount : UInt32
  headerFlags : UInt8
  headerTimeOffset : UInt32
  xorKeyMaskClearBits : UInt8
  xorKey : List UInt8
  mergeMiningRhs : List UInt8
  txns : List TemplateTxn
  prevhash_length : toDatumTemplate.previousblockhashBin.length = 32
  xorKey_length : xorKey.length = 16
  mergeMiningRhs_length : mergeMiningRhs.length = 32
  /-- more are cut off by the parser -/
  txns_length_le : txns.length ≤ 16383
  txnTotalSize_eq : toDatumTemplate.txnTotalSize.toNat = (txns.map fun txn => txn.data.length).sum

/-- `DATUM_BLAKE2B_USE_TIME_OFFSET`. -/
def blake2bUseTimeOffset : UInt8 := 4

/-- `datum_blake2b_time_on_wire`. -/
def timeOnWire (ntime offset : UInt64) (flags : UInt8) : Option UInt32 :=
  if flags &&& blake2bUseTimeOffset ≠ 0 then
    if ntime < offset then none
    else if (ntime - offset).toNat < 2 ^ 32 then some (ntime - offset).toUInt32
    else none
  else if ntime.toNat < 2 ^ 32 then some ntime.toUInt32
  else none

namespace BlockTemplate

variable (tmpl : BlockTemplate)

/-- `blake2b_time_on_wire`, as `datum_stratum_job_refresh_blake2b` sets it. -/
def blake2bTimeOnWire : UInt32 :=
  if tmpl.headerFlags &&& blake2bUseTimeOffset ≠ 0 then
    (timeOnWire tmpl.curtime tmpl.headerTimeOffset.toUInt64 tmpl.headerFlags).getD
      tmpl.curtime.toUInt32
  else
    tmpl.curtime.toUInt32

/-- The transaction count that is committed to. -/
def committedTxcount : UInt32 :=
  if tmpl.headerTransactionCount ≠ 0 then tmpl.headerTransactionCount
  else UInt32.ofNat (tmpl.txns.length + 1)

end BlockTemplate

end ChirpGateway
