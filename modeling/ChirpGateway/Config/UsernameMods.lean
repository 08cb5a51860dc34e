import ChirpGateway.Chirp.Record
import ChirpGateway.Lib.SizedRecords
import ChirpGateway.Rpc.Json

/-!
# The table of username modifiers

`datum_config_parse_username_mods`, `datum_username_mods_next` and
`datum_username_mods_find` (`datum_conf.c:296-393`, `datum_conf.h:80-92`). The table is one
block of memory: a record for each modifier with its ranges, the name and the addresses
behind them, and a size of zero at the end. Pointers and `size_t` take eight bytes, least
significant first, and a null pointer in a field is zero.
-/

namespace ChirpGateway

open Bytes SizedRecords Writes

/-! ## Proportions -/

/-- The arithmetic the shares are summed up in. -/
structure ShareArith (α : Type) where
  zero : α
  /-- `json_number_value`. -/
  value : Json → α
  /-- Whether a proportion is below zero. -/
  negative : α → Bool
  add : α → α → α
  /-- `ceil(sum * 0x10000) - 1` cut to 16 bits, and nothing where that is below zero. -/
  nonceMax : α → Option UInt16

/-- The arithmetic of the proportions as they are written. -/
def exactArith : ShareArith Rat where
  zero := 0
  value := Json.numberValue
  negative proportion := proportion < 0
  add := (· + ·)
  nonceMax sum :=
    let nonceMaxD := (sum * 0x10000).ceil - 1
    if nonceMaxD < 0 then none
    else some (if nonceMaxD > 0xffff then 0xffff else UInt16.ofNat nonceMaxD.toNat)

/-- The bytes of a member name up to the terminator. A name holds a character for each byte
    of its UTF-8 form. -/
def keyBytes (key : String) : List UInt8 := Buffer.cString (ascii key)

/-- An entry of `ranges`. -/
structure AddrRange where
  addr : List UInt8
  max : UInt16

/-- A modifier, as its record has it. -/
structure UsernameMod where
  name : List UInt8
  ranges : List AddrRange

section

variable {α : Type} (arith : ShareArith α)

/-- The ranges for the members of a modifier, from a sum on. -/
def modRanges : List (String × Json) → α → List AddrRange
  | [], _ => []
  | (addr, proportion) :: rest, sum =>
    if proportion.isNull then modRanges rest sum
    else
      match arith.nonceMax (arith.add sum (arith.value proportion)) with
      | none => modRanges rest (arith.add sum (arith.value proportion))
      | some nonceMax =>
        ⟨keyBytes addr, nonceMax⟩ ::
          if nonceMax = 0xffff then []
          else modRanges rest (arith.add sum (arith.value proportion))

/-- The modifier a member defines. -/
def usernameMod (modname : String) (moddefn : Json) : UsernameMod where
  name := keyBytes modname
  ranges := modRanges arith moddefn.members arith.zero

/-- The modifiers that are not null, in the order of the document. -/
def usernameMods : List (String × Json) → List UsernameMod
  | [] => []
  | (modname, moddefn) :: rest =>
    if moddefn.isNull then usernameMods rest
    else usernameMod arith modname moddefn :: usernameMods rest

/-! ## The first pass -/

/-- `sizeof(struct datum_username_mod)`, which has no room for ranges. -/
def umodSize : Nat := 24

/-- `_Alignof(struct datum_username_mod)`. -/
def umodAlign : Nat := 8

/-- `sizeof(struct datum_addr_range)`. -/
def rangeSize : Nat := 24

/-- `datum_align_sz`. -/
def datumAlignSz (minSz alignment : Nat) : Nat :=
  (minSz + alignment - 1) / alignment * alignment

/-- The inner loop: `sz` with room for the addresses, unless a proportion is refused. -/
def addrsSize : List (String × Json) → Nat → Option Nat
  | [], sz => some sz
  | (addr, proportion) :: rest, sz =>
    if proportion.isNull then addrsSize rest sz
    else if !proportion.isNumber then none
    else if arith.negative (arith.value proportion) then none
    else addrsSize rest (sz + ((keyBytes addr).length + 1))

/-- The outer loop: `sz` and `at_least_one_mod`. -/
def modsSize : List (String × Json) → Nat → Bool → Option (Nat × Bool)
  | [], sz, atLeastOneMod => some (sz, atLeastOneMod)
  | (modname, moddefn) :: rest, sz, atLeastOneMod =>
    if moddefn.isNull then modsSize rest sz atLeastOneMod
    else if !moddefn.isObject then none
    else
      (addrsSize arith moddefn.members
        (sz + ((keyBytes modname).length + 1 + rangeSize * (moddefn.members.length + 1)))).bind
          fun sz => modsSize rest sz true

/-- The first pass over the document. -/
def tableSize (item : Json) : Option (Nat × Bool) :=
  modsSize arith item.members ((umodSize + umodAlign - 1) * (item.members.length + 1)) false

/-! ## The second pass -/

/-- The stores for one range: its length, the address with its terminator, the pointer to
    it and the highest `share_rnd`. -/
def AddrRange.stores (slot p : Nat) (range : AddrRange) : List (Write UInt8) :=
  [⟨slot + 8, Wire.leBytes 8 range.addr.length⟩, ⟨p, range.addr ++ [0]⟩,
    ⟨slot, Wire.leBytes 8 p⟩, ⟨slot + 16, Wire.leBytes 2 range.max.toNat⟩]

/-- The loop over the proportions of a modifier: the stores, `addr_range` and `p`. -/
def fillRanges : List (String × Json) → α → (addrRange p : Nat) →
    List (Write UInt8) × Nat × Nat
  | [], _, addrRange, p => ([], addrRange, p)
  | (addr, proportion) :: rest, sum, addrRange, p =>
    if proportion.isNull then fillRanges rest sum addrRange p
    else
      let sum := arith.add sum (arith.value proportion)
      match arith.nonceMax sum with
      | none => fillRanges rest sum addrRange p
      | some nonceMax =>
        let addrLen := (keyBytes addr).length
        let stores := AddrRange.stores addrRange p ⟨keyBytes addr, nonceMax⟩
        if nonceMax = 0xffff then (stores, addrRange + rangeSize, p + (addrLen + 1))
        else
          let (more, last) := fillRanges rest sum (addrRange + rangeSize) (p + (addrLen + 1))
          (stores ++ more, last)

/-- The loop over the modifiers, up to the size of zero behind the last one. There is
    nothing where an assertion fails; `stop` is the end of the block. -/
def fillMods (stop : Nat) : List (String × Json) → (p : Nat) → Option (List (Write UInt8))
  | [], p => some [⟨p, Wire.leBytes 8 0⟩]
  | (modname, moddefn) :: rest, umod =>
    if moddefn.isNull then fillMods stop rest umod
    else
      let sz := umodSize + rangeSize * (moddefn.members.length + 1)
      let name := keyBytes modname
      let p := umod + sz
      let (ranges, addrRange, last) :=
        fillRanges arith moddefn.members arith.zero (umod + umodSize) (p + name.length)
      -- The strings are not overwritten, and the block is not overrun.
      if addrRange ≤ umod + sz ∧ last ≤ stop then
        let aligned := datumAlignSz (last - umod) umodAlign
        (fillMods stop rest (umod + aligned)).map fun more =>
          [⟨umod, Wire.leBytes 8 sz⟩, ⟨umod + 16, Wire.leBytes 8 name.length⟩,
            ⟨p, name⟩,
            ⟨umod + 8, Wire.leBytes 8 p⟩] ++ ranges ++
          [⟨addrRange, Wire.leBytes 8 0⟩, ⟨umod, Wire.leBytes 8 aligned⟩] ++ more
      else
        none

/-- What the parser works on: `*umods_p`, the memory, and the blocks given back so far. -/
structure ModsState where
  umods : Option Nat
  mem : Nat → UInt8
  freed : List Nat

/-- `free(*umods_p)`. -/
def ModsState.free (s : ModsState) : ModsState :=
  { s with freed := s.umods.toList ++ s.freed }

/-- How a call ends. -/
inductive ParseMods where
  /-- It returns -1. -/
  | refused (s : ModsState)
  /-- It returns 1. -/
  | parsed (s : ModsState)
  /-- No memory, and it calls `abort`. -/
  | aborted
  | assertFailed

/-- `datum_config_parse_username_mods`. The document is in memory, so that `sz` does not
    wrap. -/
def datumConfigParseUsernameMods (malloc : Nat → Option Nat) (s : ModsState) (item : Json) :
    ParseMods :=
  if item.members.length = 0 then
    if item.isNull ∨ item.isObject then .parsed { s.free with umods := none } else .refused s
  else
    match tableSize arith item with
    | none => .refused s
    | some (_, false) => .parsed { s.free with umods := none }
    | some (sz, true) =>
      match malloc sz with
      | none => .aborted
      | some base =>
        match fillMods arith (base + sz) item.members base with
        | none => .assertFailed
        | some writes => .parsed { s.free with umods := some base, mem := storeAll s.mem writes }

end

/-! ## Walking the table -/

/-- `datum_username_mods_next`. -/
def datumUsernameModsNext (mem : Nat → UInt8) (prevUmod : Nat) : Option Nat :=
  unlessEmpty (fun umod => readLe mem umod 8) (prevUmod + readLe mem prevUmod 8)

/-- What `datum_username_mods_find` compares: the lengths, and then the names. -/
def modNameMatches (mem : Nat → UInt8) (modname : List UInt8) (umod : Nat) : Bool :=
  modname.length == readLe mem (umod + 16) 8 &&
    strncmpEq modname (read mem (readLe mem (umod + 8) 8) modname.length) modname.length

/-- `datum_username_mods_find`, for as many turns as the fuel allows. -/
def datumUsernameModsFind (mem : Nat → UInt8) (modname : List UInt8) (fuel : Nat)
    (umod : Option Nat) : Option (Option Nat) :=
  search (datumUsernameModsNext mem) (modNameMatches mem modname) fuel umod

end ChirpGateway
