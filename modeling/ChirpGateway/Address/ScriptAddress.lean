import ChirpGateway.Address.Base58Encode

/-!
# From a script to its address

`output_script_2_addr` (`datum_utils.c:458-528`), which shows scripts as addresses of the main
network. It undoes `addr_2_output_script` for all addresses but those of a test network, and
`addr_2_output_script` undoes it for all scripts that an address can stand for.
-/

namespace ChirpGateway

open Bytes

/-- The 25 bytes of a base58 address. -/
def addressBytes (sha256 : List UInt8 → List UInt8) (version : UInt8) (hash : List UInt8) :
    List UInt8 :=
  (version :: hash) ++ (sha256 (sha256 (version :: hash))).take 4

/-- `output_script_2_addr`: the text, and what is returned, for a script in a buffer with bytes
    behind it; `none` is a read past the buffer. The program is read in the length that the
    script tells. -/
def outputScript2Addr (sha256 : List UInt8 → List UInt8) (script behind : List UInt8) :
    Option (List UInt8 × Nat) :=
  match script with
  | [] => some ([], 0)
  | op :: _ =>
    if op = 0x6a then some (ascii "OP_RETURN", 9)
    else if op = 0xa9 || op = 0x76 then
      let version := if op = 0xa9 then 5 else 0
      let hash := (script.drop (if op = 0xa9 then 2 else 3)).take 20
      if script.length ≠ (if op = 0xa9 then 23 else 25) then some ([], 0)
      else
        match b58enc 255 (addressBytes sha256 version hash) with
        | none => some (ascii "UNKNOWN", 7)
        -- the size of the text counts its terminator
        | some text => some (text, text.length + 1)
    else if op = 0 || op = 0x51 then
      let programLen := (script.getD 1 0).toNat
      let program := ((script ++ behind).drop 2).take programLen
      if script.length < 4 || script.length > 42 then some (ascii "UNKNOWN", 7)
      else if programLen < 0x02 || programLen > 0x28 then some (ascii "UNKNOWN", 7)
      else if program.length < programLen then none
      else
        match segwitAddrEncode (ascii "bc") (if op = 0 then 0 else op.toNat - 0x50) program with
        | none => some (ascii "UNKNOWN", 7)
        | some text => some (text, text.length)
    else some (ascii "UNKNOWN", 7)

/-- The scripts that an address stands for. -/
inductive AddressScript : List UInt8 → Prop where
  | keyHash {hash : List UInt8} : hash.length = 20 →
      AddressScript ([0x76, 0xa9, 0x14] ++ hash ++ [0x88, 0xac])
  | scriptHash {hash : List UInt8} : hash.length = 20 →
      AddressScript ([0xa9, 0x14] ++ hash ++ [0x87])
  | witnessZero {prog : List UInt8} : prog.length = 20 ∨ prog.length = 32 →
      AddressScript (0 :: UInt8.ofNat prog.length :: prog)
  | taproot {prog : List UInt8} : prog.length = 32 →
      AddressScript (0x51 :: UInt8.ofNat prog.length :: prog)

/-! ## What the two do with each kind -/

variable {sha256 : List UInt8 → List UInt8}

/-- The text of a key hash. -/
theorem outputScript2Addr_keyHash {hash : List UInt8} (hlength : hash.length = 20)
    (behind : List UInt8) :
    outputScript2Addr sha256 ([0x76, 0xa9, 0x14] ++ hash ++ [0x88, 0xac]) behind =
      match b58enc 255 (addressBytes sha256 0 hash) with
      | none => some (ascii "UNKNOWN", 7)
      | some text => some (text, text.length + 1) := by
  have htake : (hash ++ [0x88, 0xac]).take 20 = hash := List.take_left' hlength
  simp [outputScript2Addr, hlength, htake]

theorem outputScript2Addr_scriptHash {hash : List UInt8} (hlength : hash.length = 20)
    (behind : List UInt8) :
    outputScript2Addr sha256 ([0xa9, 0x14] ++ hash ++ [0x87]) behind =
      match b58enc 255 (addressBytes sha256 5 hash) with
      | none => some (ascii "UNKNOWN", 7)
      | some text => some (text, text.length + 1) := by
  have htake : (hash ++ [0x87]).take 20 = hash := List.take_left' hlength
  simp [outputScript2Addr, hlength, htake]

theorem outputScript2Addr_segwit {op : UInt8} {prog : List UInt8} (hop : op = 0 ∨ op = 0x51)
    (hlength : prog.length = 20 ∨ prog.length = 32) (behind : List UInt8) :
    outputScript2Addr sha256 (op :: UInt8.ofNat prog.length :: prog) behind =
      match segwitAddrEncode (ascii "bc") (if op = 0 then 0 else 1) prog with
      | none => some (ascii "UNKNOWN", 7)
      | some text => some (text, text.length) := by
  have htake : (prog ++ behind).take prog.length = prog := List.take_left
  rcases hop with rfl | rfl <;> rcases hlength with h | h <;> rw [h] at htake <;>
    simp [outputScript2Addr, h, htake]

theorem length_b58tobin {addr bin : List UInt8} (h : b58tobin addr = some bin) :
    bin.length = 25 := by
  obtain ⟨n, -, rfl⟩ := Option.map_eq_some_iff.mp h
  exact length_beBytes 25 n

/-- What `blkmk_address_to_script` accepts, and what it makes of it. -/
theorem blkmkAddressToScript_iff {addr script : List UInt8} :
    blkmkAddressToScript sha256 addr = some script ↔
      ∃ version hash, hash.length = 20 ∧
        b58tobin addr = some (addressBytes sha256 version hash) ∧
        ((addressBytes sha256 version hash).takeWhile (· = 0)).length =
          (addr.takeWhile (· = 49)).length ∧
        ((version = 0 ∨ version = 111) ∧ script = [0x76, 0xa9, 0x14] ++ hash ++ [0x88, 0xac] ∨
          (version = 5 ∨ version = 196) ∧ script = [0xa9, 0x14] ++ hash ++ [0x87]) := by
  constructor
  · intro h
    simp only [blkmkAddressToScript] at h
    cases htobin : b58tobin addr with
    | none => simp [htobin] at h
    | some bin =>
      have hlength := length_b58tobin htobin
      cases hcheck : b58check sha256 bin addr with
      | none => simp [htobin, hcheck] at h
      | some version =>
        obtain ⟨hsum, hleading, hhead⟩ := b58check_eq_some_iff.mp hcheck
        obtain ⟨rest, rfl⟩ : ∃ rest, bin = version :: rest := by
          cases bin with
          | nil => cases hhead
          | cons byte rest =>
            cases hhead
            exact ⟨rest, rfl⟩
        have hbin : addressBytes sha256 version (rest.take 20) = version :: rest := by
          rw [addressBytes, ← List.take_succ_cons, ← hsum, List.take_append_drop]
        refine ⟨version, rest.take 20, ?_, by rw [hbin], by rw [hbin]; exact hleading, ?_⟩
        · rw [List.length_take]
          simp only [List.length_cons] at hlength
          omega
        · simp only [htobin, hcheck, List.drop_one, List.tail_cons] at h
          split_ifs at h with hkey hscript
          · cases h
            exact .inl ⟨by simpa using hkey, rfl⟩
          · cases h
            exact .inr ⟨by simpa using hscript, rfl⟩
  · rintro ⟨version, hash, hlength, htobin, hleading, hscript⟩
    have hhead : (version :: hash).length = 21 := by rw [List.length_cons, hlength]
    have hcheck : b58check sha256 (addressBytes sha256 version hash) addr = some version := by
      refine b58check_eq_some_iff.mpr ⟨?_, hleading, rfl⟩
      rw [addressBytes, List.drop_left' hhead, List.take_left' hhead]
    have hhash : ((addressBytes sha256 version hash).drop 1).take 20 = hash := by
      rw [addressBytes, List.cons_append, List.drop_one, List.tail_cons, List.take_left' hlength]
    simp only [blkmkAddressToScript, htobin, hcheck, hhash]
    rcases hscript with ⟨rfl | rfl, rfl⟩ | ⟨rfl | rfl, rfl⟩ <;> rfl

/-- Bytes of an address, as many as there are in one. -/
theorem length_addressBytes (hsha : ∀ text, 4 ≤ (sha256 text).length) {hash : List UInt8}
    (hlength : hash.length = 20) (version : UInt8) :
    (addressBytes sha256 version hash).length = 25 := by
  have hsum := hsha (sha256 (version :: hash))
  simp only [addressBytes, List.length_append, List.length_cons, List.length_take, hlength]
  omega

/-- A base58 text has at least as many characters as there are bytes in an address. -/
theorem length_b58 {addr data : List UInt8} (h : b58tobin addr = some data)
    (hleading : (data.takeWhile (· = 0)).length = (addr.takeWhile (· = 49)).length) :
    25 ≤ addr.length := by
  have hdata := length_b58tobin h
  obtain ⟨n, hread, rfl⟩ := Option.map_eq_some_iff.mp h
  have hn := b58Value_lt (by decide) hread
  obtain ⟨digits, rfl, hdigits, hvalue⟩ := exists_digits_of_b58Value hread
  rw [Nat.zero_mul, Nat.zero_add] at hvalue
  rw [leading_ones hdigits] at hleading
  have hsplit := congrArg List.length
    (List.takeWhile_append_dropWhile (p := (· = 0)) (l := beBytes 25 n))
  have hsplit' := congrArg List.length
    (List.takeWhile_append_dropWhile (p := (· = 0)) (l := digits))
  rw [List.length_append] at hsplit hsplit'
  rw [List.length_map]
  have hlt : n < 58 ^ (digits.dropWhile (· = 0)).length := by
    rw [hvalue, ← BigEndian.value_dropWhile_zero]
    exact BigEndian.value_lt (by decide) fun d hd =>
      hdigits d ((List.dropWhile_sublist _).mem hd)
  have hnumber : byteValue ((beBytes 25 n).dropWhile (· = 0)) = n := by
    rw [byteValue_drop_zeros, byteValue_beBytes]
    exact Nat.mod_eq_of_lt hn
  cases hrest : (beBytes 25 n).dropWhile (· = 0) with
  | nil =>
    rw [hrest] at hsplit
    simp only [List.length_nil] at hsplit
    omega
  | cons byte rest =>
    have hbyte : byte.toNat ≠ 0 := by
      intro hzero
      have hnot := List.head?_dropWhile_not (· = 0) (beBytes 25 n)
      rw [hrest] at hnot
      simp only [List.head?_cons, decide_eq_false_iff_not] at hnot
      exact hnot (UInt8.toNat_inj.mp hzero)
    rw [hrest] at hnumber hsplit
    have hle := BigEndian.pow_le_value 256 hbyte (rest.map UInt8.toNat)
    have hall : 256 ^ rest.length ≤ n := by
      rw [List.length_map] at hle
      exact hle.trans (Nat.le_of_eq hnumber)
    have hmore : 256 ^ rest.length < 256 ^ (digits.dropWhile (· = 0)).length :=
      Nat.lt_of_le_of_lt hall (Nat.lt_of_lt_of_le hlt (Nat.pow_le_pow_left (by decide) _))
    have hlonger := (Nat.pow_lt_pow_iff_right (by decide)).mp hmore
    simp only [List.length_cons] at hsplit
    omega

/-! ## There and back -/

/-- A base58 text is not taken for a segwit address. -/
theorem addr2OutputScript_of_blkmk {addr script : List UInt8}
    (h : blkmkAddressToScript sha256 addr = some script) :
    addr2OutputScript sha256 addr = some script := by
  obtain ⟨version, hash, -, htobin, hleading, -⟩ := blkmkAddressToScript_iff.mp h
  have hlong := length_b58 htobin hleading
  obtain ⟨n, version', hvalue, hversion, hzero, -, hknown⟩ := blkmkAddressToScript_eq_some h
  have hstart := not_startsSegwit_of_b58 hvalue hversion hzero hknown
  have hbegins : ((ascii "bc").isPrefixOf addr || (ascii "tb").isPrefixOf addr) = false := by
    rw [Bool.or_eq_false_iff]
    constructor <;>
    · rw [← Bool.not_eq_true, List.isPrefixOf_iff_prefix]
      rintro ⟨rest, rfl⟩
      exact Bool.noConfusion (hstart _ rfl)
  rw [addr2OutputScript, if_neg (by omega), if_neg (by rw [hbegins]; exact Bool.false_ne_true), h]

/-- A program that an address can have has one on the main network. -/
theorem exists_segwitAddrEncode {witver : Nat} {prog : List UInt8} (hversion : witver ≤ 1)
    (hlength : prog.length = 20 ∨ prog.length = 32) :
    ∃ rest, segwitAddrEncode (ascii "bc") witver prog =
      some (ascii "bc" ++ bech32Separator :: rest) ∧
      16 ≤ rest.length := by
  obtain ⟨hgroups, pad, hpad, hcount, -⟩ := convertBitsPad_spec prog 0 (show 0 < 5 by decide)
  have hdata : ∀ v ∈ witver :: convertBitsPad prog 0 0, v < 32 :=
    List.forall_mem_cons.mpr ⟨by omega, hgroups⟩
  have hbc : (ascii "bc").length = 2 := rfl
  have hmade : segwitAddrEncode (ascii "bc") witver prog =
      bech32Encode (ascii "bc") (witver :: convertBitsPad prog 0 0)
        (if witver > 0 then .bech32m else .bech32) := by
    rw [segwitAddrEncode, if_neg (by omega), if_neg (by simp; omega), if_neg (by simp; omega)]
  refine ⟨_, hmade.trans (bech32Encode_eq_some_iff.mpr ⟨by decide, ?_, hdata, rfl⟩), ?_⟩
  · rw [hbc, List.length_cons]
    omega
  · simp only [List.length_map, List.length_append, List.length_cons]
    omega

/-- A segwit address of the main network is decoded as one. -/
theorem addr2OutputScript_of_segwit {rest : List UInt8} (hlong : 16 ≤ rest.length) :
    addr2OutputScript sha256 (ascii "bc" ++ bech32Separator :: rest) =
      match segwitAddrDecode (ascii "bc") (ascii "bc" ++ bech32Separator :: rest) with
      | none => none
      | some (witver, witprog) =>
        if (witver = 0 && (witprog.length = 20 || witprog.length = 32)) ||
            (witver = 1 && witprog.length = 32) then
          some ((if witver ≠ 0 then UInt8.ofNat (witver + 0x50) else 0) ::
            UInt8.ofNat witprog.length :: witprog)
        else
          none := by
  have hlength : ¬(ascii "bc" ++ bech32Separator :: rest).length < 16 := by
    rw [List.length_append, List.length_cons]
    omega
  have hbegins : ((ascii "bc").isPrefixOf (ascii "bc" ++ bech32Separator :: rest) ||
      (ascii "tb").isPrefixOf (ascii "bc" ++ bech32Separator :: rest)) = true := rfl
  rw [addr2OutputScript, if_neg hlength, if_pos hbegins]
  rfl

/-- The script of an address comes back from the address it is shown as. -/
theorem addr2OutputScript_of_outputScript2Addr (sha256 : List UInt8 → List UInt8)
    (hsha : ∀ text, 4 ≤ (sha256 text).length) {script : List UInt8}
    (hscript : AddressScript script)
    (behind : List UInt8) :
    ∃ text size, outputScript2Addr sha256 script behind = some (text, size) ∧
      addr2OutputScript sha256 text = some script := by
  cases hscript with
  | keyHash hlength =>
    obtain ⟨text, henc, htobin, hleading⟩ := exists_b58enc (length_addressBytes hsha hlength 0)
    refine ⟨text, text.length + 1, by rw [outputScript2Addr_keyHash hlength, henc], ?_⟩
    refine addr2OutputScript_of_blkmk (blkmkAddressToScript_iff.mpr ?_)
    exact ⟨0, _, hlength, htobin, hleading, .inl ⟨.inl rfl, rfl⟩⟩
  | scriptHash hlength =>
    obtain ⟨text, henc, htobin, hleading⟩ := exists_b58enc (length_addressBytes hsha hlength 5)
    refine ⟨text, text.length + 1, by rw [outputScript2Addr_scriptHash hlength, henc], ?_⟩
    refine addr2OutputScript_of_blkmk (blkmkAddressToScript_iff.mpr ?_)
    exact ⟨5, _, hlength, htobin, hleading, .inr ⟨.inl rfl, rfl⟩⟩
  | witnessZero hlength =>
    obtain ⟨rest, henc, hlong⟩ := exists_segwitAddrEncode (Nat.zero_le 1) hlength
    refine ⟨ascii "bc" ++ bech32Separator :: rest, (ascii "bc" ++ bech32Separator :: rest).length,
      ?_, ?_⟩
    · rw [outputScript2Addr_segwit (.inl rfl) hlength]
      simp only [if_true, henc]
    · rw [addr2OutputScript_of_segwit hlong, segwitAddrDecode_of_segwitAddrEncode (by decide) henc]
      simp [hlength]
  | taproot hlength =>
    obtain ⟨rest, henc, hlong⟩ := exists_segwitAddrEncode (Nat.le_refl 1) (.inr hlength)
    refine ⟨ascii "bc" ++ bech32Separator :: rest, (ascii "bc" ++ bech32Separator :: rest).length,
      ?_, ?_⟩
    · rw [outputScript2Addr_segwit (.inr rfl) (.inr hlength)]
      simp [henc]
    · rw [addr2OutputScript_of_segwit hlong, segwitAddrDecode_of_segwitAddrEncode (by decide) henc]
      simp [hlength]

/-- A taproot program, which needs no hash. -/
theorem addr2OutputScript_of_outputScript2Addr_taproot :
    ∃ text size, outputScript2Addr (fun _ => List.replicate 32 0)
        (0x51 :: 32 :: List.replicate 32 7) [] = some (text, size) ∧
      addr2OutputScript (fun _ => List.replicate 32 0) text =
        some (0x51 :: 32 :: List.replicate 32 7) :=
  addr2OutputScript_of_outputScript2Addr _ (fun _ => by simp)
    (.taproot (List.length_replicate ..)) []

/-- An address of a test network. -/
def isTestnetAddress (addr : List UInt8) : Bool :=
  (ascii "tb").isPrefixOf addr || (ascii "bcrt1").isPrefixOf addr || isTestnetBase58 addr

/-- The prefix that an address is decoded with tells its network. -/
theorem network_of_prefix {addr : List UInt8}
    (hbegins : ((ascii "bc").isPrefixOf addr || (ascii "tb").isPrefixOf addr) = true) :
    let hrp :=
      if (ascii "t").isPrefixOf addr then ascii "tb"
      else if (ascii "rt1").isPrefixOf (addr.drop 2) then ascii "bcrt"
      else ascii "bc"
    hrp = ascii "bc" ∧ isTestnetAddress addr = false ∨
      (hrp = ascii "tb" ∨ hrp = ascii "bcrt") ∧ isTestnetAddress addr = true := by
  have hbase : isTestnetBase58 addr = false := by simp only [isTestnetBase58, hbegins]; rfl
  simp only [isTestnetAddress, hbase, Bool.or_false]
  rw [Bool.or_eq_true, List.isPrefixOf_iff_prefix, List.isPrefixOf_iff_prefix] at hbegins
  rcases hbegins with ⟨rest, rfl⟩ | ⟨rest, rfl⟩
  · have hbc : (ascii "t").isPrefixOf (ascii "bc" ++ rest) = false ∧
        (ascii "tb").isPrefixOf (ascii "bc" ++ rest) = false ∧
        (ascii "bc" ++ rest).drop 2 = rest ∧
        (ascii "bcrt1").isPrefixOf (ascii "bc" ++ rest) = (ascii "rt1").isPrefixOf rest :=
      ⟨rfl, rfl, rfl, rfl⟩
    obtain ⟨ht, htb, hdrop, hbcrt⟩ := hbc
    rw [ht, htb, hdrop, hbcrt]
    cases (ascii "rt1").isPrefixOf rest with
    | false => exact .inl ⟨rfl, rfl⟩
    | true => exact .inr ⟨.inr rfl, rfl⟩
  · exact .inr ⟨.inl rfl, rfl⟩

/-- A segwit address that is accepted: the network it is for, and its parts. -/
theorem segwit_of_addr2OutputScript {addr script : List UInt8}
    (h : addr2OutputScript sha256 addr = some script)
    (hbegins : ((ascii "bc").isPrefixOf addr || (ascii "tb").isPrefixOf addr) = true) :
    ∃ hrp witver witprog, segwitAddrDecode hrp addr = some (witver, witprog) ∧
      (hrp = ascii "bc" ∧ isTestnetAddress addr = false ∨
        (hrp = ascii "tb" ∨ hrp = ascii "bcrt") ∧ isTestnetAddress addr = true) ∧
      witver ≤ 1 ∧ (witprog.length = 20 ∨ witprog.length = 32) ∧
      script = (if witver = 0 then 0 else 0x51) :: UInt8.ofNat witprog.length :: witprog := by
  simp only [addr2OutputScript, hbegins, if_true] at h
  split at h
  · cases h
  · next hlong =>
    split at h
    · cases h
    · next witver witprog hdecode =>
      split at h
      · next hknown =>
        cases h
        refine ⟨_, witver, witprog, hdecode, ?_, ?_⟩
        · exact network_of_prefix hbegins
        · simp only [Bool.or_eq_true, Bool.and_eq_true, decide_eq_true_eq] at hknown
          rcases hknown with ⟨rfl, hlength⟩ | ⟨rfl, hlength⟩
          · exact ⟨Nat.zero_le 1, hlength, rfl⟩
          · exact ⟨Nat.le_refl 1, .inr hlength, rfl⟩
      · cases h

/-- What an address is shown as again. -/
theorem outputScript2Addr_of_segwit {witprog : List UInt8} {witver : Nat}
    (hlength : witprog.length = 20 ∨ witprog.length = 32) (hversion : witver ≤ 1)
    (behind : List UInt8) :
    ∃ rest, segwitAddrEncode (ascii "bc") witver witprog =
        some (ascii "bc" ++ bech32Separator :: rest) ∧
      outputScript2Addr sha256
          ((if witver = 0 then 0 else 0x51) :: UInt8.ofNat witprog.length :: witprog) behind =
        some (ascii "bc" ++ bech32Separator :: rest,
          (ascii "bc" ++ bech32Separator :: rest).length) := by
  obtain ⟨rest, henc, -⟩ := exists_segwitAddrEncode hversion hlength
  refine ⟨rest, henc, ?_⟩
  have hop : (if witver = 0 then (0 : UInt8) else 0x51) = 0 ∨
      (if witver = 0 then (0 : UInt8) else 0x51) = 0x51 := by
    split
    · exact .inl rfl
    · exact .inr rfl
  have hback : (if (if witver = 0 then (0 : UInt8) else 0x51) = 0 then 0 else 1) = witver := by
    by_cases hzero : witver = 0
    · simp [hzero]
    · rw [if_neg hzero, if_neg (by decide)]
      omega
  rw [outputScript2Addr_segwit hop hlength, hback, henc]

theorem not_testnet_of_bc1 (rest : List UInt8) :
    isTestnetAddress (ascii "bc" ++ bech32Separator :: rest) = false := rfl

/-- A segwit address of the main network is its own text. -/
theorem segwitAddrEncode_eq_self {hrp addr witprog : List UInt8} {witver : Nat}
    (hbegins : ((ascii "bc").isPrefixOf addr || (ascii "tb").isPrefixOf addr) = true)
    (hne : hrp ≠ []) (h : segwitAddrDecode hrp addr = some (witver, witprog)) :
    segwitAddrEncode hrp witver witprog = some addr := by
  obtain ⟨values, hdecoded, -, -⟩ := segwitAddrDecode_eq_some h
  have hlower := not_isUpper_of_bech32Decoded hdecoded hne (isLower_of_isPrefixOf hbegins)
  rw [segwitAddrEncode_of_segwitAddrDecode h, map_toLower_eq hlower]

/-- A base58 address that is accepted is of a test network if its version byte is one of
    these. -/
theorem isTestnetAddress_of_b58 {addr hash : List UInt8} {version : UInt8}
    (hbegins : ((ascii "bc").isPrefixOf addr || (ascii "tb").isPrefixOf addr) = false)
    (htobin : b58tobin addr = some (addressBytes sha256 version hash)) :
    isTestnetAddress addr = true ↔ version = 111 ∨ version = 196 := by
  have hparts := Bool.or_eq_false_iff.mp hbegins
  have hbcrt : (ascii "bcrt1").isPrefixOf addr = false := by
    rw [← Bool.not_eq_true, List.isPrefixOf_iff_prefix]
    rintro ⟨rest, rfl⟩
    exact Bool.noConfusion hparts.1
  simp [isTestnetAddress, isTestnetBase58, hparts.1, hparts.2, hbcrt, htobin, addressBytes]

/-- A base58 text is shown for the version byte that it has. -/
theorem b58enc_addressBytes_iff (hsha : ∀ text, 4 ≤ (sha256 text).length)
    {addr hash : List UInt8} {version shown : UInt8} (hlength : hash.length = 20)
    (htobin : b58tobin addr = some (addressBytes sha256 version hash))
    (hleading : ((addressBytes sha256 version hash).takeWhile (· = 0)).length =
      (addr.takeWhile (· = 49)).length) :
    b58enc 255 (addressBytes sha256 shown hash) = some addr ↔ shown = version := by
  constructor
  · intro henc
    obtain ⟨text, henc', htobin', -⟩ := exists_b58enc (length_addressBytes hsha hlength shown)
    rw [henc, Option.some.injEq] at henc'
    rw [← henc', htobin] at htobin'
    exact (List.cons.inj (Option.some.inj htobin')).1.symm
  · rintro rfl
    exact b58enc_of_b58tobin htobin hleading

/-- A base58 address is shown as itself where the version byte is its own. -/
theorem shown_b58_iff (hsha : ∀ text, 4 ≤ (sha256 text).length)
    {addr hash : List UInt8} {version shown : UInt8} (hlength : hash.length = 20)
    (htobin : b58tobin addr = some (addressBytes sha256 version hash))
    (hleading : ((addressBytes sha256 version hash).takeWhile (· = 0)).length =
      (addr.takeWhile (· = 49)).length) :
    (∃ size, (match b58enc 255 (addressBytes sha256 shown hash) with
      | none => some (ascii "UNKNOWN", 7)
      | some text => some (text, text.length + 1)) = some (addr, size)) ↔ shown = version := by
  have hlong := length_b58 htobin hleading
  rw [← b58enc_addressBytes_iff hsha hlength htobin hleading]
  cases b58enc 255 (addressBytes sha256 shown hash) with
  | none =>
    simp only [Option.some.injEq, Prod.mk.injEq, reduceCtorEq, iff_false, not_exists, not_and]
    rintro size rfl
    exact absurd hlong (by decide)
  | some text => simp

/-- An address that is accepted is shown as itself again, unless it is of a test network. -/
theorem outputScript2Addr_of_addr2OutputScript (sha256 : List UInt8 → List UInt8)
    (hsha : ∀ text, 4 ≤ (sha256 text).length) {addr script : List UInt8}
    (h : addr2OutputScript sha256 addr = some script) (behind : List UInt8) :
    (∃ size, outputScript2Addr sha256 script behind = some (addr, size)) ↔
      isTestnetAddress addr = false := by
  cases hbegins : (ascii "bc").isPrefixOf addr || (ascii "tb").isPrefixOf addr with
  | true =>
    obtain ⟨hrp, witver, witprog, hdecode, hnetwork, hversion, hlength, rfl⟩ :=
      segwit_of_addr2OutputScript h hbegins
    obtain ⟨rest, henc, hshown⟩ := outputScript2Addr_of_segwit hlength hversion behind
    rw [hshown]
    rcases hnetwork with ⟨rfl, hmain⟩ | ⟨-, htest⟩
    · rw [segwitAddrEncode_eq_self hbegins (by decide) hdecode, Option.some.injEq] at henc
      exact ⟨fun _ => hmain, fun _ => ⟨_, by rw [← henc]⟩⟩
    · refine ⟨?_, fun hmain => Bool.noConfusion (hmain.symm.trans htest)⟩
      rintro ⟨size, heq⟩
      rw [← (Prod.mk.inj (Option.some.inj heq)).1]
      exact not_testnet_of_bc1 rest
  | false =>
    rw [addr2OutputScript] at h
    split at h
    · cases h
    · rw [hbegins, if_neg Bool.false_ne_true] at h
      obtain ⟨version, hash, hlength, htobin, hleading, hscript⟩ :=
        blkmkAddressToScript_iff.mp h
      rw [← Bool.not_eq_true, isTestnetAddress_of_b58 hbegins htobin]
      rcases hscript with ⟨hversion, rfl⟩ | ⟨hversion, rfl⟩
      · rw [outputScript2Addr_keyHash hlength, shown_b58_iff hsha hlength htobin hleading]
        rcases hversion with rfl | rfl <;> decide
      · rw [outputScript2Addr_scriptHash hlength, shown_b58_iff hsha hlength htobin hleading]
        rcases hversion with rfl | rfl <;> decide

/-- The address of twenty zeros is shown as itself. -/
theorem outputScript2Addr_of_addr2OutputScript_zeros :
    ∃ size, outputScript2Addr (fun _ => List.replicate 32 0) (0 :: 20 :: List.replicate 20 0) [] =
      some (ascii "bc1qqqqqqqqqqqqqqqqqqqqqqqqqqqqqqqqq9e75rs", size) :=
  (outputScript2Addr_of_addr2OutputScript _ (fun _ => by simp) (by decide +kernel) []).mpr
    (by decide +kernel)

end ChirpGateway
