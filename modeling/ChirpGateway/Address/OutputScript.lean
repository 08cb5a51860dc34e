import ChirpGateway.Address.Base58
import ChirpGateway.Address.Bech32
import ChirpGateway.Lib.Tables
import Mathlib.Tactic.IntervalCases

/-!
# From an address to its script

`addr_2_output_script` (`datum_utils.c:405-456`) and, for the public verifier,
`addr_to_spk` (`tools/verify_chirp_block.py:113-135`). Every address the gateway
can decode is either decoded to the same script by the verifier, or a testnet
base58 address, for which the verifier has no script.
-/

namespace ChirpGateway

open Bytes

/-- `addr_2_output_script` into 64 bytes, as all callers have it. -/
def addr2OutputScript (sha256 : List UInt8 → List UInt8) (addr : List UInt8) :
    Option (List UInt8) :=
  if addr.length < 16 then
    none
  else if (ascii "bc").isPrefixOf addr || (ascii "tb").isPrefixOf addr then
    let hrp :=
      if (ascii "t").isPrefixOf addr then ascii "tb"
      else if (ascii "rt1").isPrefixOf (addr.drop 2) then ascii "bcrt"
      else ascii "bc"
    match segwitAddrDecode hrp addr with
    | none => none
    | some (witver, witprog) =>
      if (witver = 0 && (witprog.length = 20 || witprog.length = 32)) ||
          (witver = 1 && witprog.length = 32) then
        some ((if witver ≠ 0 then UInt8.ofNat (witver + 0x50) else 0) ::
          UInt8.ofNat witprog.length :: witprog)
      else
        none
  else
    blkmkAddressToScript sha256 addr

/-! ## The verifier -/

/-- The loop of `addr_to_spk` over the data values, with Python's unbounded
    `acc`. -/
def pyProgram : (values : List Nat) → (acc bits : Nat) → List UInt8
  | [], _, _ => []
  | v :: values, acc, bits =>
    let acc := (acc <<< 5) ||| v
    if bits + 5 ≥ 8 then
      UInt8.ofNat ((acc >>> (bits + 5 - 8)) &&& 0xff) :: pyProgram values acc (bits + 5 - 8)
    else
      pyProgram values acc (bits + 5)

/-- The number a base58 text denotes; `none` is a `ValueError`. -/
def pyBase58 (addr : List UInt8) : Option Nat :=
  addr.foldlM (fun n ch => (b58Digits.idxOf? ch).map (n * 58 + ·)) 0

/-- `addr_to_spk` for an ASCII text, with scripts as bytes: `none` is an
    exception, `some none` is Python's `None`. -/
def addrToSpk (addr : List UInt8) : Option (Option (List UInt8)) :=
  let a := addr.map toLower
  if (ascii "bc1").isPrefixOf a || (ascii "tb1").isPrefixOf a || (ascii "bcrt1").isPrefixOf a then
    let data := (a.reverse.takeWhile (· ≠ bech32Separator)).reverse
    match data.mapM (bech32Charset.idxOf? ·) with
    | none => none
    | some values =>
      match values.take (values.length - 6) with
      | [] => none
      | ver :: rest =>
        let prog := pyProgram rest 0 0
        if prog.length > 255 then none
        else some (some
          ((if ver = 0 then 0 else UInt8.ofNat (0x50 + ver)) :: UInt8.ofNat prog.length :: prog))
  else
    match pyBase58 addr with
    | none => none
    | some n =>
      if n < 256 ^ 25 then
        let raw := beBytes 25 n
        let h := (raw.drop 1).take 20
        if raw.head? = some 0 then some (some ([0x76, 0xa9, 0x14] ++ h ++ [0x88, 0xac]))
        else if raw.head? = some 5 then some (some ([0xa9, 0x14] ++ h ++ [0x87]))
        else some none
      else
        none

/-! ## Both decode the same segwit script -/

/-- A 32-bit accumulator is enough for the byte that is taken out of it. -/
theorem byte_of_mod (acc shift : Nat) (hshift : shift ≤ 4) :
    ((acc % 2 ^ 32) >>> shift) &&& 0xff = (acc >>> shift) &&& 0xff := by
  have hmask : ∀ n : Nat, n &&& 0xff = n % 2 ^ 8 := fun n => Nat.and_two_pow_sub_one_eq_mod n 8
  rw [hmask, hmask, Nat.shiftRight_eq_div_pow, Nat.shiftRight_eq_div_pow]
  interval_cases shift <;> omega

theorem append_group_mod (acc v : Nat) (hv : v < 32) :
    ((acc <<< 5) ||| v) % 2 ^ 32 = (((acc % 2 ^ 32) <<< 5) ||| v) % 2 ^ 32 := by
  rw [← Nat.shiftLeft_add_eq_or_of_lt (i := 5) hv, ← Nat.shiftLeft_add_eq_or_of_lt (i := 5) hv,
    Nat.shiftLeft_eq, Nat.shiftLeft_eq]
  omega

theorem pyProgram_eq {values : List Nat} (hvalues : ∀ v ∈ values, v < 32) (acc bits : Nat)
    (hbits : bits < 8) :
    pyProgram values acc bits = (convertBits values (acc % 2 ^ 32) bits).1 := by
  induction values generalizing acc bits with
  | nil => rfl
  | cons v values ih =>
    have hv : v < 32 := hvalues v List.mem_cons_self
    have hrest := fun w hw => hvalues w (List.mem_cons_of_mem _ hw)
    simp only [pyProgram, convertBits, ← append_group_mod acc v hv]
    split
    · rw [byte_of_mod _ _ (by omega), ih hrest _ _ (by omega)]
    · exact ih hrest _ _ (by omega)

theorem forall_lt_of_mapM_charsetRev {body : List UInt8} {values : List Nat}
    (h : body.mapM charsetRev = some values) : ∀ v ∈ values, v < 32 := by
  induction body generalizing values with
  | nil =>
    cases h
    simp
  | cons ch body ih =>
    rw [List.mapM_cons] at h
    simp only [Option.bind_eq_bind, Option.bind_eq_some_iff, Option.pure_def,
      Option.some.injEq] at h
    obtain ⟨v, hv, rest, hrest, rfl⟩ := h
    exact List.forall_mem_cons.mpr ⟨charsetRev_lt hv, ih hrest⟩

/-- In lower case the verifier's table is the gateway's. -/
theorem mapM_idxOf_eq {body : List UInt8} {values : List Nat}
    (hlower : ∀ ch ∈ body, isUpper ch = false) (h : body.mapM charsetRev = some values) :
    body.mapM (bech32Charset.idxOf? ·) = some values := by
  induction body generalizing values with
  | nil => exact h
  | cons ch body ih =>
    rw [List.mapM_cons] at h ⊢
    simp only [Option.bind_eq_bind, Option.bind_eq_some_iff, Option.pure_def,
      Option.some.injEq] at h ⊢
    obtain ⟨v, hv, rest, hrest, rfl⟩ := h
    refine ⟨v, ?_, rest, ih (fun c hc => hlower c (List.mem_cons_of_mem _ hc)) hrest, rfl⟩
    simp only [charsetRev] at hv
    split at hv
    · rwa [toLower_of_not_isUpper (hlower ch List.mem_cons_self)] at hv
    · cases hv

theorem map_toLower_eq {text : List UInt8} (h : ∀ ch ∈ text, isUpper ch = false) :
    text.map toLower = text := by
  rw [List.map_congr_left fun ch hch => toLower_of_not_isUpper (h ch hch)]
  exact List.map_id _

/-- A decoded text that starts in lower case has no upper case at all. -/
theorem not_isUpper_of_bech32Decoded {addr hrp : List UInt8} {data : List Nat}
    (h : Bech32Decoded addr hrp data) (hne : hrp ≠ [])
    (hstart : ∀ ch ∈ addr.head?, isLower ch = true) : ∀ ch ∈ addr, isUpper ch = false := by
  obtain ⟨front, body, values, rfl, -, rfl, -, -, hcase⟩ := h.parts
  have hlower : (front ++ body).any isLower = true := by
    cases front with
    | nil => exact absurd rfl hne
    | cons ch front =>
      have hch := hstart ch rfl
      simp [hch]
  rw [hlower, Bool.true_and, List.any_eq_false] at hcase
  intro ch hch
  rw [List.mem_append, List.mem_cons] at hch
  rcases hch with hfront | rfl | hbody
  · simpa using hcase ch (List.mem_append_left _ hfront)
  · rfl
  · simpa using hcase ch (List.mem_append_right _ hbody)

/-- What the verifier makes of a segwit address the gateway decodes. -/
theorem addrToSpk_of_segwit {hrp addr prog : List UInt8} {witver : Nat}
    (hhrp : hrp = ascii "bc" ∨ hrp = ascii "tb" ∨ hrp = ascii "bcrt")
    (hstart : ∀ ch ∈ addr.head?, isLower ch = true)
    (h : segwitAddrDecode hrp addr = some (witver, prog)) :
    addrToSpk addr = some (some
      ((if witver = 0 then 0 else UInt8.ofNat (0x50 + witver)) ::
        UInt8.ofNat prog.length :: prog)) := by
  obtain ⟨values, hdecoded, hprog, hlen⟩ := segwitAddrDecode_eq_some h
  have hne : hrp ≠ [] := by
    rcases hhrp with rfl | rfl | rfl <;> decide
  have hupper := not_isUpper_of_bech32Decoded hdecoded hne hstart
  have hlower := map_toLower_eq hupper
  obtain ⟨front, body, all, haddr, hbody, hfront, hall, hdata, -⟩ := hdecoded.parts
  rw [map_toLower_eq fun ch hch => hupper ch (haddr ▸ List.mem_append_left _ hch)] at hfront
  -- the verifier looks for the prefix with its separator
  have hstarts : ((ascii "bc1").isPrefixOf addr || (ascii "tb1").isPrefixOf addr ||
      (ascii "bcrt1").isPrefixOf addr) = true := by
    rw [haddr, ← hfront]
    rcases hhrp with rfl | rfl | rfl <;> simp [ascii, bech32Separator]
  have hsplit : (addr.reverse.takeWhile (· ≠ bech32Separator)).reverse = body := by
    rw [haddr, List.reverse_append, List.reverse_cons, List.append_assoc,
      List.takeWhile_append_of_pos]
    · simp
    · intro ch hch
      rw [List.mem_reverse] at hch
      simp only [ne_eq, decide_not, Bool.not_eq_eq_eq_not, Bool.not_true, decide_eq_false_iff_not]
      rintro rfl
      exact hbody hch
  have hindex := mapM_idxOf_eq
    (fun ch hch => hupper ch (haddr ▸ List.mem_append_right _ (List.mem_cons_of_mem _ hch))) hall
  have hvalues : ∀ v ∈ values, v < 32 := fun v hv =>
    forall_lt_of_mapM_charsetRev hall v
      (List.mem_of_mem_take (hdata ▸ List.mem_cons_of_mem _ hv))
  have hprogram : pyProgram values 0 0 = prog := by
    rw [pyProgram_eq hvalues 0 0 (by decide), hprog]
    rfl
  simp only [addrToSpk, hlower]
  rw [if_pos hstarts, hsplit, hindex]
  simp only [← hdata, hprogram]
  rw [if_neg (by omega)]

/-! ## Both decode the same base58 script -/

theorem pyBase58_of_b58Value {text : List UInt8} {n m : Nat} (h : b58Value n text = some m) :
    text.foldlM (fun n ch => (b58Digits.idxOf? ch).map (n * 58 + ·)) n = some m := by
  induction text generalizing n with
  | nil => exact h
  | cons ch rest ih =>
    obtain ⟨digit, hdigit, -, hrest⟩ := b58Value_cons h
    rw [b58DigitsMap] at hdigit
    rw [List.foldlM_cons, hdigit]
    exact ih hrest

/-- A number that starts with one of the digits for `b`, `t`, `B` and `T` has a
    first byte far from every version the gateway knows. -/
theorem not_version_of_digit {digit len n : Nat}
    (hdigit : digit = 10 ∨ digit = 26 ∨ digit = 34 ∨ digit = 51)
    (hlow : digit * 58 ^ len ≤ n) (hhigh : n < (digit + 1) * 58 ^ len) :
    n / 256 ^ 24 ≠ 5 ∧ n / 256 ^ 24 ≠ 111 ∧ n / 256 ^ 24 ≠ 196 := by
  rcases Nat.lt_trichotomy len 33 with hlt | rfl | hgt
  · have hpow : 58 ^ len ≤ 58 ^ 32 := Nat.pow_le_pow_right (by decide) (by omega)
    have hn : n < 52 * 58 ^ 32 :=
      calc n < (digit + 1) * 58 ^ len := hhigh
        _ ≤ 52 * 58 ^ 32 := Nat.mul_le_mul (by omega) hpow
    omega
  · rcases hdigit with rfl | rfl | rfl | rfl <;> omega
  · have hpow : 58 ^ 34 ≤ 58 ^ len := Nat.pow_le_pow_right (by decide) (by omega)
    have hn : 10 * 58 ^ 34 ≤ n :=
      calc 10 * 58 ^ 34 ≤ digit * 58 ^ len := Nat.mul_le_mul (by omega) hpow
        _ ≤ n := hlow
    omega

/-- `'b'`, `'B'`, `'t'` and `'T'`, which start what the verifier takes for a
    segwit address. -/
def startsSegwit (ch : UInt8) : Bool := toLower ch = 98 || toLower ch = 116

theorem digit_of_startsSegwit {ch : UInt8} (h : startsSegwit ch = true) :
    ∃ digit, b58DigitsMap ch = some digit ∧
      (digit = 10 ∨ digit = 26 ∨ digit = 34 ∨ digit = 51) := by
  have hall : ∀ c : Fin 256, startsSegwit (UInt8.ofFin c) = true →
      ∃ digit ∈ [10, 26, 34, 51], b58DigitsMap (UInt8.ofFin c) = some digit := by
    decide +kernel
  obtain ⟨digit, hmem, hdigit⟩ := hall ch.toFin h
  refine ⟨digit, hdigit, ?_⟩
  simpa using hmem

theorem not_startsSegwit_of_b58 {addr : List UInt8} {n : Nat} {version : UInt8}
    (hvalue : b58Value 0 addr = some n) (hversion : n / 256 ^ 24 = version.toNat)
    (hzero : version = 0 → addr.head? = some 49)
    (hknown : version = 0 ∨ version = 111 ∨ version = 5 ∨ version = 196) :
    ∀ ch ∈ addr.head?, startsSegwit ch = false := by
  intro ch hch
  by_contra hstart
  rw [Bool.not_eq_false] at hstart
  cases addr with
  | nil => cases hch
  | cons first rest =>
    cases hch
    obtain ⟨digit, hdigit, hcases⟩ := digit_of_startsSegwit hstart
    obtain ⟨digit', hdigit', -, hrest⟩ := b58Value_cons hvalue
    rw [hdigit, Option.some.injEq] at hdigit'
    rw [← hdigit', Nat.zero_mul, Nat.zero_add] at hrest
    obtain ⟨hlow, hhigh⟩ := b58Value_bounds hrest
    obtain ⟨h5, h111, h196⟩ := not_version_of_digit hcases hlow hhigh
    rw [hversion] at h5 h111 h196
    rcases hknown with rfl | rfl | rfl | rfl
    · have hone := hzero rfl
      rw [List.head?_cons, Option.some.injEq] at hone
      rw [hone] at hstart
      exact absurd hstart (by decide)
    · exact h111 rfl
    · exact h5 rfl
    · exact h196 rfl

/-- The verifier reads such a text as base58. -/
theorem isPrefixOf_eq_false {addr : List UInt8}
    (h : ∀ ch ∈ addr.head?, startsSegwit ch = false) :
    ((ascii "bc1").isPrefixOf (addr.map toLower) || (ascii "tb1").isPrefixOf (addr.map toLower) ||
      (ascii "bcrt1").isPrefixOf (addr.map toLower)) = false := by
  cases addr with
  | nil => decide
  | cons ch rest =>
    have hch := h ch rfl
    simp only [startsSegwit, Bool.or_eq_false_iff, decide_eq_false_iff_not] at hch
    obtain ⟨hb, ht⟩ := hch
    simp [ascii, List.isPrefixOf, Ne.symm hb, Ne.symm ht]

theorem isLower_of_isPrefixOf {addr : List UInt8}
    (h : ((ascii "bc").isPrefixOf addr || (ascii "tb").isPrefixOf addr) = true) :
    ∀ ch ∈ addr.head?, isLower ch = true := by
  intro ch hch
  rw [Bool.or_eq_true, List.isPrefixOf_iff_prefix, List.isPrefixOf_iff_prefix] at h
  rcases h with ⟨rest, rfl⟩ | ⟨rest, rfl⟩ <;>
  · cases hch
    decide

/-- The prefix `addr_2_output_script` decodes with. -/
theorem segwitHrp_cases (addr : List UInt8) :
    let hrp :=
      if (ascii "t").isPrefixOf addr then ascii "tb"
      else if (ascii "rt1").isPrefixOf (addr.drop 2) then ascii "bcrt"
      else ascii "bc"
    hrp = ascii "bc" ∨ hrp = ascii "tb" ∨ hrp = ascii "bcrt" := by
  intro hrp
  simp only [hrp]
  split
  · exact Or.inr (Or.inl rfl)
  · split
    · exact Or.inr (Or.inr rfl)
    · exact Or.inl rfl

/-- A base58 address of a test network, whose version byte the verifier does not
    know. -/
def isTestnetBase58 (addr : List UInt8) : Bool :=
  !((ascii "bc").isPrefixOf addr || (ascii "tb").isPrefixOf addr) &&
    (b58tobin addr).any fun bin => bin.head? = some 111 || bin.head? = some 196

/-- The two decoders on every text the gateway can decode. -/
theorem addrToSpk_of_addr2OutputScript {sha256 : List UInt8 → List UInt8}
    {addr script : List UInt8} (h : addr2OutputScript sha256 addr = some script) :
    addrToSpk addr = some (if isTestnetBase58 addr then none else some script) := by
  simp only [addr2OutputScript] at h
  split at h
  · cases h
  · split at h
    · next hsegwit =>
      split at h
      · cases h
      · next witver witprog hdecode =>
        have hscript : script =
            (if witver = 0 then 0 else UInt8.ofNat (0x50 + witver)) ::
              UInt8.ofNat witprog.length :: witprog := by
          split at h
          · cases h
            rw [Nat.add_comm, ite_not]
          · cases h
        have htest : isTestnetBase58 addr = false := by
          simp only [isTestnetBase58, hsegwit, Bool.not_true, Bool.false_and]
        rw [addrToSpk_of_segwit ?_ (isLower_of_isPrefixOf hsegwit) hdecode, htest, hscript]
        · rfl
        · exact segwitHrp_cases addr
    · next hbase58 =>
      obtain ⟨n, version, hvalue, hversion, hzero, hscript, hknown⟩ :=
        blkmkAddressToScript_eq_some h
      have hstart := not_startsSegwit_of_b58 hvalue hversion hzero hknown
      have hlt : n < 256 ^ 25 := b58Value_lt (by decide) hvalue
      have hhead : (beBytes 25 n).head? = some version := by
        rw [beBytes_head, hversion, UInt8.ofNat_toNat]
      have hpy : pyBase58 addr = some n := pyBase58_of_b58Value hvalue
      have htest : isTestnetBase58 addr = (decide (version = 111) || decide (version = 196)) := by
        simp only [isTestnetBase58, b58tobin, hvalue, Option.map_some, Option.any_some, hhead]
        simp [hbase58]
      simp only [addrToSpk, isPrefixOf_eq_false hstart, hpy]
      rw [if_neg Bool.false_ne_true, if_pos hlt, hhead, htest, hscript]
      rcases hknown with rfl | rfl | rfl | rfl <;> rfl

/-! ## Decoded addresses and their scripts -/

theorem ascii_of_mapM_charsetRev {body : List UInt8} {values : List Nat}
    (h : body.mapM charsetRev = some values) : ∀ ch ∈ body, ch < 0x80 := by
  induction body generalizing values with
  | nil => simp
  | cons ch body ih =>
    rw [List.mapM_cons] at h
    simp only [Option.bind_eq_bind, Option.bind_eq_some_iff, Option.pure_def,
      Option.some.injEq] at h
    obtain ⟨v, hv, rest, hrest, rfl⟩ := h
    refine List.forall_mem_cons.mpr ⟨?_, ih hrest⟩
    simp only [charsetRev] at hv
    split at hv
    · assumption
    · cases hv

theorem ascii_of_b58Value {text : List UInt8} {n m : Nat} (h : b58Value n text = some m) :
    ∀ ch ∈ text, ch < 0x80 := by
  induction text generalizing n with
  | nil => simp
  | cons ch rest ih =>
    obtain ⟨digit, hdigit, -, hrest⟩ := b58Value_cons h
    refine List.forall_mem_cons.mpr ⟨?_, ih hrest⟩
    have hmem : ch ∈ b58Digits := by
      rw [b58DigitsMap, List.idxOf?_eq_some_iff] at hdigit
      obtain ⟨hlt, heq, -⟩ := hdigit
      rw [← heq]
      exact List.getElem_mem hlt
    have hall : ∀ c ∈ b58Digits, c < 0x80 := by decide +kernel
    exact hall ch hmem

theorem ascii_of_bech32Decoded {addr hrp : List UInt8} {data : List Nat}
    (h : Bech32Decoded addr hrp data) (hhrp : ∀ ch ∈ hrp, ch < 0x80) :
    ∀ ch ∈ addr, ch < 0x80 := by
  obtain ⟨front, body, values, rfl, -, rfl, hvalues, -⟩ := h.parts
  intro ch hch
  rw [List.mem_append, List.mem_cons] at hch
  rcases hch with hfront | rfl | hbody
  · have hlow := hhrp _ (List.mem_map_of_mem hfront)
    by_cases hupper : isUpper ch = true
    · simp only [isUpper, Bool.and_eq_true, decide_eq_true_eq] at hupper
      exact UInt8.lt_of_le_of_lt hupper.2 (by decide)
    · rwa [toLower_of_not_isUpper (Bool.eq_false_iff.mpr hupper)] at hlow
  · decide
  · exact ascii_of_mapM_charsetRev hvalues ch hbody

/-- What the gateway decodes is plain text. -/
theorem ascii_of_addr2OutputScript {sha256 : List UInt8 → List UInt8} {addr script : List UInt8}
    (h : addr2OutputScript sha256 addr = some script) : ∀ ch ∈ addr, ch < 0x80 := by
  simp only [addr2OutputScript] at h
  split at h
  · cases h
  · split at h
    · split at h
      · cases h
      · next witver witprog hdecode =>
        obtain ⟨values, hdecoded, -, -⟩ := segwitAddrDecode_eq_some hdecode
        refine ascii_of_bech32Decoded hdecoded ?_
        rcases segwitHrp_cases addr with heq | heq | heq <;>
        · rw [heq]
          decide +kernel
    · obtain ⟨n, version, hvalue, -⟩ := blkmkAddressToScript_eq_some h
      exact ascii_of_b58Value hvalue

/-- No address decodes to a script that starts like the commitment. -/
theorem head_ne_of_addr2OutputScript {sha256 : List UInt8 → List UInt8} {addr script : List UInt8}
    (h : addr2OutputScript sha256 addr = some script) : script.head? ≠ some 0x6a := by
  simp only [addr2OutputScript] at h
  split at h
  · cases h
  · split at h
    · split at h
      · cases h
      · split at h
        · next hversion =>
          cases h
          simp only [Bool.or_eq_true, Bool.and_eq_true, decide_eq_true_eq] at hversion
          rcases hversion with ⟨rfl, -⟩ | ⟨rfl, -⟩ <;> simp
        · cases h
    · obtain ⟨n, version, -, -, -, hscript, -⟩ := blkmkAddressToScript_eq_some h
      rw [hscript]
      split <;> simp

end ChirpGateway
