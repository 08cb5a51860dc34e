import ChirpGateway.Address.ScriptAddress

/-!
# One wrong character

A segwit address with one character replaced is no address any more: not with another value in
the data, not with another prefix, and not as a base58 text.
-/

namespace ChirpGateway

open Bytes

/-- A text and one that differs from it in a single character. -/
structure Replaced (text other : List UInt8) (i : Nat) : Prop where
  here : text[i]? ≠ other[i]?
  elsewhere : ∀ j, j ≠ i → other[j]? = text[j]?
  length : other.length = text.length

theorem replaced_set {text : List UInt8} {i : Nat} (hi : i < text.length) {ch : UInt8}
    (hne : ch ≠ text[i]) : Replaced text (text.set i ch) i where
  here := by
    rw [List.getElem?_set_self hi, List.getElem?_eq_getElem hi]
    exact fun h => hne (Option.some.inj h).symm
  elsewhere j hj := List.getElem?_set_ne (Ne.symm hj)
  length := List.length_set

/-- Where one place differs, two that do not agree are not both left. -/
theorem Replaced.not_two {text other : List UInt8} {i j k : Nat} (h : Replaced text other i)
    (hjk : j ≠ k) (hj : other[j]? ≠ text[j]?) (hk : other[k]? ≠ text[k]?) : False := by
  by_cases heq : j = i
  · exact hk (h.elsewhere k fun hki => hjk (heq.trans hki.symm))
  · exact hj (h.elsewhere j heq)

/-- Behind a common beginning it is the ends that differ. -/
theorem Replaced.ends {front back back' : List UInt8} {i : Nat}
    (h : Replaced (front ++ back) (front ++ back') i) : ∃ k, Replaced back back' k := by
  have hle : front.length ≤ i := by
    by_contra hlt
    refine h.here ?_
    rw [List.getElem?_append_left (not_le.mp hlt), List.getElem?_append_left (not_le.mp hlt)]
  obtain ⟨k, rfl⟩ := Nat.exists_eq_add_of_le hle
  refine ⟨k, ?_, ?_, ?_⟩
  · simpa [List.getElem?_append_right] using h.here
  · intro j hj
    simpa [List.getElem?_append_right] using h.elsewhere (front.length + j) (by omega)
  · simpa using h.length

/-- Two texts that differ in one character, taken apart there. -/
theorem Replaced.parts {text other : List UInt8} {i : Nat} (h : Replaced text other i) :
    ∃ front c d back, text = front ++ c :: back ∧ other = front ++ d :: back ∧ c ≠ d := by
  have hi : i < text.length := by
    by_contra hge
    refine h.here ?_
    rw [List.getElem?_eq_none (not_lt.mp hge),
      List.getElem?_eq_none (by rw [h.length]; exact not_lt.mp hge)]
  have hi' : i < other.length := h.length ▸ hi
  refine ⟨text.take i, text[i], other[i], text.drop (i + 1), ?_, ?_, ?_⟩
  · rw [← List.drop_eq_getElem_cons hi, List.take_append_drop]
  · have hset : other = text.set i other[i] := by
      refine List.ext_getElem? fun j => ?_
      by_cases hj : j = i
      · rw [hj, List.getElem?_set_self hi, List.getElem?_eq_getElem hi']
      · rw [List.getElem?_set_ne (Ne.symm hj), h.elsewhere j hj]
    rw [List.set_eq_take_append_cons_drop, if_pos hi] at hset
    exact hset
  · intro heq
    refine h.here ?_
    rw [List.getElem?_eq_getElem hi, List.getElem?_eq_getElem hi', heq]

/-! ## In the data -/

/-- Two accepted texts behind one prefix, without capitals, differ in more than one
    character. -/
theorem not_replaced_of_accepted {hrp body body' : List UInt8} {enc enc' : Bech32Encoding}
    {values values' : List Nat} (h : Accepted hrp body enc values)
    (h' : Accepted hrp body' enc' values') (hlower : ∀ ch ∈ body, isUpper ch = false)
    (hlower' : ∀ ch ∈ body', isUpper ch = false) {i : Nat} : ¬Replaced body body' i := by
  intro hreplaced
  obtain ⟨front, c, d, back, rfl, rfl, hne⟩ := hreplaced.parts
  obtain ⟨vs, v, ws, rfl, hfront, hv, hback⟩ := exists_values_of_mapM h.charset
  obtain ⟨vs', w, ws', rfl, hfront', hw, hback'⟩ := exists_values_of_mapM h'.charset
  cases hfront.symm.trans hfront'
  cases hback.symm.trans hback'
  have hdiffer : v ≠ w := by
    -- The same value in the same case is the same character.
    rintro rfl
    have hc := bech32Char_of_charsetRev hv
    have hd := bech32Char_of_charsetRev hw
    rw [toLower_of_not_isUpper (hlower c (by simp))] at hc
    rw [toLower_of_not_isUpper (hlower' d (by simp))] at hd
    exact hne (hc.symm.trans hd)
  have hlength : ws.length < 90 := by
    have hshort := h.short
    rw [length_of_mapM_eq_some hback]
    simp only [List.length_append, List.length_cons] at hshort
    omega
  exact bech32Checksum_replaced (charsetRev_lt hv) (charsetRev_lt hw) hdiffer hlength h.checksum
    h'.checksum

/-! ## Anywhere in an address -/

variable {sha256 : List UInt8 → List UInt8}

/-- A segwit address that is accepted, taken apart at its separator. -/
structure SegwitText (addr hrp body : List UInt8) : Prop where
  split : addr = hrp ++ bech32Separator :: body
  network : hrp = ascii "bc" ∨ hrp = ascii "tb" ∨ hrp = ascii "bcrt"
  noSeparator : bech32Separator ∉ body
  lower : ∀ ch ∈ addr, isUpper ch = false
  long : 39 ≤ body.length
  accepted : ∃ enc values, Accepted hrp body enc values

theorem segwitText_of_addr2OutputScript {addr script : List UInt8}
    (h : addr2OutputScript sha256 addr = some script)
    (hbegins : ((ascii "bc").isPrefixOf addr || (ascii "tb").isPrefixOf addr) = true) :
    ∃ hrp body, SegwitText addr hrp body := by
  obtain ⟨hrp, witver, witprog, hdecode, hnetwork, -, hlength, -⟩ :=
    segwit_of_addr2OutputScript h hbegins
  have hknown : hrp = ascii "bc" ∨ hrp = ascii "tb" ∨ hrp = ascii "bcrt" := by
    rcases hnetwork with ⟨hbc, -⟩ | ⟨htest, -⟩
    · exact .inl hbc
    · exact .inr htest
  have hne : hrp ≠ [] := by
    rcases hknown with rfl | rfl | rfl <;> decide
  obtain ⟨enc, values, hbech, hdata⟩ := segwitAddrDecode_eq_some_iff.mp hdecode
  have hdecoded := bech32Decode_eq_some hbech
  have hlower := not_isUpper_of_bech32Decoded hdecoded hne (isLower_of_isPrefixOf hbegins)
  obtain ⟨front, body, -, rfl, hbody, hfront, -⟩ := hdecoded.parts
  rw [map_toLower_eq fun ch hch => hlower ch (List.mem_append_left _ hch)] at hfront
  subst hfront
  obtain ⟨all, haccepted, -, htake⟩ := (bech32Decode_eq_some_iff hbody).mp hbech
  refine ⟨hrp, body, rfl, hknown, hbody, hlower, ?_, enc, all, haccepted⟩
  obtain ⟨val, bits, hconvert, -, -⟩ := hdata.padding
  obtain ⟨-, hcount, -⟩ := convertBits_spec
    (fun v hv => lt_of_bech32Decode hbech v (List.mem_cons_of_mem _ hv)) 0 (show 0 < 8 by decide)
  rw [hconvert] at hcount
  have hshorter := congrArg List.length htake
  rw [List.length_cons, List.length_take] at hshorter
  simp only at hcount
  omega

/-- A long base58 text that is read begins with two ones. -/
theorem starts_with_ones {c d : UInt8} {rest : List UInt8} {n : Nat}
    (h : b58Value 0 (c :: d :: rest) = some n) (hlong : 40 ≤ rest.length) :
    c = 49 ∧ d = 49 := by
  have hn := b58Value_lt (by decide) h
  obtain ⟨first, hfirst, -, h⟩ := b58Value_cons h
  obtain ⟨second, hsecond, -, h⟩ := b58Value_cons h
  have hle := (b58Value_bounds h).1
  have hzero : (0 * 58 + first) * 58 + second = 0 := by
    by_contra hne
    have hpow : 58 ^ 40 ≤ 58 ^ rest.length := Nat.pow_le_pow_right (by decide) hlong
    have hmul := Nat.le_mul_of_pos_left (58 ^ rest.length) (Nat.pos_of_ne_zero hne)
    have hbig : 2 ^ 200 ≤ 58 ^ 40 := by decide
    omega
  have hboth : first = 0 ∧ second = 0 := by omega
  have hone : b58Char 0 = 49 := rfl
  rw [← b58Char_of_b58DigitsMap hfirst, ← b58Char_of_b58DigitsMap hsecond, hboth.1, hboth.2]
  exact ⟨hone, hone⟩

/-- Behind one prefix two accepted addresses differ in more than one character. -/
theorem SegwitText.not_replaced {addr other hrp body body' : List UInt8} {i : Nat}
    (h : SegwitText addr hrp body) (h' : SegwitText other hrp body') :
    ¬Replaced addr other i := by
  intro hreplaced
  obtain ⟨enc, values, haccepted⟩ := h.accepted
  obtain ⟨enc', values', haccepted'⟩ := h'.accepted
  have hcons (text : List UInt8) :
      hrp ++ bech32Separator :: text = (hrp ++ [bech32Separator]) ++ text := List.append_cons ..
  rw [h.split, h'.split, hcons body, hcons body'] at hreplaced
  obtain ⟨k, hends⟩ := hreplaced.ends
  refine not_replaced_of_accepted haccepted haccepted' ?_ ?_ hends
  · exact fun ch hch => h.lower ch (by rw [h.split]; simp [hch])
  · exact fun ch hch => h'.lower ch (by rw [h'.split]; simp [hch])

/-- Two prefixes are more than one character apart. -/
theorem SegwitText.network_eq {addr other hrp hrp' body body' : List UInt8} {i : Nat}
    (h : SegwitText addr hrp body) (h' : SegwitText other hrp' body')
    (hreplaced : Replaced addr other i) : hrp = hrp' := by
  have hsep {text : List UInt8} (hnot : bech32Separator ∉ text) (j : Nat) :
      text[j]? ≠ some bech32Separator := fun hj => hnot (List.mem_of_getElem? hj)
  have hbody := hsep h.noSeparator 1
  have hbody' := hsep h'.noSeparator 1
  have hsplit := h.split
  have hsplit' := h'.split
  rcases h.network with rfl | rfl | rfl <;> rcases h'.network with rfl | rfl | rfl
  · rfl
  · refine (hreplaced.not_two (j := 0) (k := 1) (by decide) ?_ ?_).elim <;>
      rw [hsplit, hsplit'] <;> simp [ascii]
  · refine (hreplaced.not_two (j := 2) (k := 4) (by decide) ?_ ?_).elim
    · rw [hsplit, hsplit']
      simp [ascii, bech32Separator]
    · rw [hsplit, hsplit']
      exact fun heq => hbody heq.symm
  · refine (hreplaced.not_two (j := 0) (k := 1) (by decide) ?_ ?_).elim <;>
      rw [hsplit, hsplit'] <;> simp [ascii]
  · rfl
  · refine (hreplaced.not_two (j := 0) (k := 1) (by decide) ?_ ?_).elim <;>
      rw [hsplit, hsplit'] <;> simp [ascii]
  · refine (hreplaced.not_two (j := 2) (k := 4) (by decide) ?_ ?_).elim
    · rw [hsplit, hsplit']
      simp [ascii, bech32Separator]
    · rw [hsplit, hsplit']
      exact hbody'
  · refine (hreplaced.not_two (j := 0) (k := 1) (by decide) ?_ ?_).elim <;>
      rw [hsplit, hsplit'] <;> simp [ascii]
  · rfl

/-- A segwit address begins with no ones. -/
theorem SegwitText.not_ones {addr hrp body : List UInt8} (h : SegwitText addr hrp body) :
    addr[0]? ≠ some 49 ∧ addr[1]? ≠ some 49 := by
  rw [h.split]
  rcases h.network with rfl | rfl | rfl <;> simp [ascii]

/-- An accepted segwit address is refused with any one of its characters replaced. -/
theorem addr2OutputScript_replaced {addr script : List UInt8}
    (h : addr2OutputScript sha256 addr = some script)
    (hsegwit : ((ascii "bc").isPrefixOf addr || (ascii "tb").isPrefixOf addr) = true) {i : Nat}
    (hi : i < addr.length) {ch : UInt8} (hne : ch ≠ addr[i]) :
    addr2OutputScript sha256 (addr.set i ch) = none := by
  obtain ⟨hrp, body, htext⟩ := segwitText_of_addr2OutputScript h hsegwit
  have hreplaced := replaced_set hi hne
  generalize addr.set i ch = other at hreplaced
  rw [Option.eq_none_iff_forall_ne_some]
  intro script' h'
  cases hbegins : (ascii "bc").isPrefixOf other || (ascii "tb").isPrefixOf other with
  | true =>
    obtain ⟨hrp', body', htext'⟩ := segwitText_of_addr2OutputScript h' hbegins
    obtain rfl := htext.network_eq htext' hreplaced
    exact htext.not_replaced htext' hreplaced
  | false =>
    rw [addr2OutputScript] at h'
    split at h'
    · cases h'
    · rw [hbegins, if_neg Bool.false_ne_true] at h'
      obtain ⟨version, hash, -, htobin, -⟩ := blkmkAddressToScript_iff.mp h'
      obtain ⟨n, hvalue, -⟩ := Option.map_eq_some_iff.mp htobin
      have hlong : 42 ≤ other.length := by
        have hbody := htext.long
        rw [hreplaced.length, htext.split, List.length_append, List.length_cons]
        rcases htext.network with rfl | rfl | rfl <;> simp [ascii] <;> omega
      obtain ⟨c, d, rest, rfl⟩ : ∃ c d rest, other = c :: d :: rest := by
        rcases other with - | ⟨c, - | ⟨d, rest⟩⟩
        · simp at hlong
        · simp at hlong
        · exact ⟨c, d, rest, rfl⟩
      simp only [List.length_cons] at hlong
      obtain ⟨rfl, rfl⟩ := starts_with_ones hvalue (by omega)
      obtain ⟨hzero, hone⟩ := htext.not_ones
      exact hreplaced.not_two (j := 0) (k := 1) (by decide) (Ne.symm hzero) (Ne.symm hone)

/-- The address of twenty zeros with a capital in it. -/
theorem addr2OutputScript_replaced_capital :
    addr2OutputScript (fun _ => List.replicate 32 0)
      ((ascii "bc1qqqqqqqqqqqqqqqqqqqqqqqqqqqqqqqqq9e75rs").set 3 81) = none :=
  have haccepted : addr2OutputScript (fun _ => List.replicate 32 0)
      (ascii "bc1qqqqqqqqqqqqqqqqqqqqqqqqqqqqqqqqq9e75rs") =
        some (0 :: 20 :: List.replicate 20 0) := by decide +kernel
  addr2OutputScript_replaced haccepted (by decide) (by decide) (by decide)

end ChirpGateway
