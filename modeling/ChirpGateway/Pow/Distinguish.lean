import ChirpGateway.Lib.Merkle
import ChirpGateway.Lib.Tables
import ChirpGateway.Pow.Header
import Mathlib.Data.Finset.Card
import Mathlib.Data.Fintype.Card

/-!
# Hash functions that tell commitments apart

Two commitments over different data agree only by a collision. Here are functions
that have none: the hash of one chosen text runs through the tree and the tagged
hashes of a header up to its commitment, and every other one does not.
-/

namespace ChirpGateway

open Bytes Wire

/-- A hash of 32 equal bytes. -/
def uniformHash (byte : UInt8) : Hash32 where
  bytes := List.replicate 32 byte
  length_eq := List.length_replicate

/-- Few texts leave a hash that is none of them. -/
theorem exists_hash_notMem (texts : List (List UInt8)) (hlen : texts.length < 256) :
    ∃ hash : Hash32, hash.bytes ∉ texts := by
  by_contra hall
  have hmem : ∀ i ∈ (Finset.univ : Finset (Fin 256)),
      (uniformHash (UInt8.ofNat i)).bytes ∈ texts.toFinset := by
    intro i _
    by_contra hi
    exact hall ⟨_, fun htext => hi (List.mem_toFinset.mpr htext)⟩
  have hinj : Set.InjOn (fun i : Fin 256 => (uniformHash (UInt8.ofNat i)).bytes)
      (Finset.univ : Finset (Fin 256)) := by
    intro i _ j _ hij
    have hbyte : UInt8.ofNat i = UInt8.ofNat j :=
      (List.replicate_inj.mp hij).2.resolve_left (by decide)
    have hnat := congrArg UInt8.toNat hbyte
    rw [UInt8.toNat_ofNat_of_lt' i.isLt, UInt8.toNat_ofNat_of_lt' j.isLt] at hnat
    exact Fin.ext hnat
  have hcard := Finset.card_le_card_of_injOn _ hmem hinj
  have hdedup := texts.toFinset_card_le
  rw [Finset.card_univ, Fintype.card_fin] at hcard
  omega

/-- Where a text of a given length carries a hash on its way to the commitment: a
    hash, two nodes, the payloads of the two tagged hashes. -/
def carried (pairs : Bool) (data : List UInt8) : List UInt8 :=
  if data.length = 32 then data
  else if data.length = 64 then if pairs then data.take 32 else []
  else if data.length = 183 then (data.drop 104).take 32
  else if data.length = 160 then (data.drop 64).take 32
  else []

/-- A Merkle root that is the commitment of every header it stands in. -/
def CommitsTo (sha256 : List UInt8 → Hash32) (merkle : Hash32) : Prop :=
  ∀ prevhash rhs : List UInt8, prevhash.length = 32 → rhs.length = 32 →
    ∀ (version height timeOnWire nbits txcount : UInt32) (flags clearBits : UInt8)
      (xorKey : List UInt8),
      headerCommitment sha256 version prevhash height merkle timeOnWire nbits txcount flags
        clearBits xorKey rhs = merkle

/-- The text `txn` and what carries `yes` have the hash `yes`. -/
def tracingHash (pairs : Bool) (txn : List UInt8) (yes no : Hash32) (data : List UInt8) : Hash32 :=
  if data = txn ∨ carried pairs data = yes.bytes then yes else no

theorem Hash32.ext_bytes {left right : Hash32} (h : left.bytes = right.bytes) : left = right := by
  cases left
  cases right
  cases h
  rfl

/-- The first payload carries the Merkle root. -/
theorem carried_h1Payload (pairs : Bool) (sha256 : List UInt8 → Hash32) (tag merkle : Hash32)
    {prevhash : List UInt8} (hprevhash : prevhash.length = 32) (version height timeOnWire nbits
      txcount : UInt32) (flags clearBits : UInt8) (xorKey : List UInt8) :
    carried pairs (tag.bytes ++ tag.bytes ++ h1Payload sha256 version prevhash height merkle
      timeOnWire nbits txcount flags clearBits xorKey) = merkle.bytes := by
  have hsplit : tag.bytes ++ tag.bytes ++ h1Payload sha256 version prevhash height merkle
      timeOnWire nbits txcount flags clearBits xorKey =
      (tag.bytes ++ (tag.bytes ++ (leBytes 4 (completeVersion version).toNat ++
        (prevhash.reverse ++ leBytes 4 height.toNat)))) ++ (merkle.bytes ++
          (leBytes 4 timeOnWire.toNat ++ ([0] ++ (leBytes 4 nbits.toNat ++
            (leBytes 4 txcount.toNat ++ ([flags, clearBits] ++
              (xorKeyHash sha256 xorKey).bytes)))))) := by
    simp only [h1Payload, List.append_assoc]
  have hfront : (tag.bytes ++ (tag.bytes ++ (leBytes 4 (completeVersion version).toNat ++
      (prevhash.reverse ++ leBytes 4 height.toNat)))).length = 104 := by
    simp [tag.length_eq, hprevhash]
  rw [hsplit, carried, List.drop_left' hfront, List.take_left' merkle.length_eq]
  simp [tag.length_eq, hprevhash, merkle.length_eq, Hash32.length_eq]

/-- The second payload carries the hash of the first. -/
theorem carried_hookPayload (pairs : Bool) (tag first : Hash32) {rhs : List UInt8}
    (hrhs : rhs.length = 32) :
    carried pairs (tag.bytes ++ tag.bytes ++ (first.bytes ++ List.replicate 32 0 ++ rhs)) =
      first.bytes := by
  have hfront : (tag.bytes ++ tag.bytes).length = 64 := by simp [tag.length_eq]
  rw [List.append_assoc first.bytes, carried, List.drop_left' hfront,
    List.take_left' first.length_eq]
  simp [tag.length_eq, hrhs, first.length_eq]

section Tracing

variable {pairs : Bool} {txn : List UInt8} {yes no hash : Hash32}

theorem tracingHash_txn : tracingHash pairs txn yes no txn = yes := if_pos (Or.inl rfl)

theorem tracingHash_other {data : List UInt8} (hdata : data ≠ txn)
    (hyes : carried pairs data ≠ yes.bytes) : tracingHash pairs txn yes no data = no :=
  if_neg (not_or.mpr ⟨hdata, hyes⟩)

variable (hne : yes ≠ no) (htxn : carried pairs txn ≠ no.bytes)

include hne htxn

/-- What carries one of the two hashes has it. -/
theorem tracingHash_of_carried {data : List UInt8} (hhash : hash = yes ∨ hash = no)
    (hdata : carried pairs data = hash.bytes) : tracingHash pairs txn yes no data = hash := by
  rcases hhash with rfl | rfl
  · exact if_pos (Or.inr hdata)
  · apply tracingHash_other
    · rintro rfl
      exact htxn hdata
    · intro hyes
      exact hne (Hash32.ext_bytes (hyes.symm.trans hdata))

theorem doubleSha256_of_tracingHash {data : List UInt8} (hhash : hash = yes ∨ hash = no)
    (hdata : tracingHash pairs txn yes no data = hash) :
    doubleSha256 (tracingHash pairs txn yes no) data = hash := by
  rw [doubleSha256, hdata]
  apply tracingHash_of_carried hne htxn hhash
  rw [carried, if_pos hash.length_eq]

theorem commitsTo_tracingHash (hhash : hash = yes ∨ hash = no) :
    CommitsTo (tracingHash pairs txn yes no) hash := by
  intro prevhash rhs hprevhash hrhs version height timeOnWire nbits txcount flags clearBits xorKey
  have hfirst := tracingHash_of_carried hne htxn hhash (carried_h1Payload pairs
    (tracingHash pairs txn yes no) (tracingHash pairs txn yes no (ascii "Bitcoin block header 1"))
    hash hprevhash version height timeOnWire nbits txcount flags clearBits xorKey)
  unfold headerCommitment sha256Tagged
  rw [hfirst]
  exact tracingHash_of_carried hne htxn hhash (carried_hookPayload pairs _ hash hrhs)

end Tracing

/-- With pairs, the first leaf is the root. -/
theorem root_tracingHash {txn : List UInt8} {yes no hash : Hash32} (hne : yes ≠ no)
    (htxn : carried true txn ≠ no.bytes) (hhash : hash = yes ∨ hash = no)
    (txids : List Hash32) :
    Merkle.root (hashPair (tracingHash true txn yes no)) hash txids = hash := by
  apply Merkle.root_of_combine_eq
  intro node
  apply doubleSha256_of_tracingHash hne htxn hhash
  apply tracingHash_of_carried hne htxn hhash
  rw [carried, if_neg (by simp [Hash32.length_eq]), if_pos (by simp [Hash32.length_eq]),
    if_pos rfl, List.take_left' hash.length_eq]

/-- The roots over two coinbases are told apart, whatever transactions follow. -/
theorem exists_sha256_of_txn_ne {txn other : List UInt8} (hne : txn ≠ other) :
    ∃ (sha256 : List UInt8 → Hash32) (yes no : Hash32), yes ≠ no ∧
      (∀ txids, Merkle.root (hashPair sha256) (doubleSha256 sha256 txn) txids = yes) ∧
      (∀ txids, Merkle.root (hashPair sha256) (doubleSha256 sha256 other) txids = no) ∧
      CommitsTo sha256 yes ∧ CommitsTo sha256 no := by
  obtain ⟨yes, hyes⟩ := exists_hash_notMem [carried true other] (by simp)
  obtain ⟨no, hno⟩ := exists_hash_notMem [yes.bytes, carried true txn] (by simp)
  simp only [List.mem_cons, List.not_mem_nil, or_false, not_or] at hyes hno
  have hdistinct : yes ≠ no := fun heq => hno.1 (heq ▸ rfl)
  have htxn : carried true txn ≠ no.bytes := fun heq => hno.2 heq.symm
  have hother : tracingHash true txn yes no other = no :=
    tracingHash_other hne.symm fun heq => hyes heq.symm
  refine ⟨tracingHash true txn yes no, yes, no, hdistinct, ?_, ?_, ?_, ?_⟩
  · intro txids
    rw [doubleSha256_of_tracingHash hdistinct htxn (Or.inl rfl) tracingHash_txn,
      root_tracingHash hdistinct htxn (Or.inl rfl)]
  · intro txids
    rw [doubleSha256_of_tracingHash hdistinct htxn (Or.inr rfl) hother,
      root_tracingHash hdistinct htxn (Or.inr rfl)]
  · exact commitsTo_tracingHash hdistinct htxn (Or.inl rfl)
  · exact commitsTo_tracingHash hdistinct htxn (Or.inr rfl)

/-- The hash of a coinbase is told apart from the root over it and the transactions
    behind it. -/
theorem exists_sha256_of_txids (txn : List UInt8) {txids : List Hash32} (htxids : txids ≠ []) :
    ∃ (sha256 : List UInt8 → Hash32) (yes no : Hash32), yes ≠ no ∧
      doubleSha256 sha256 txn = yes ∧
      Merkle.root (hashPair sha256) (doubleSha256 sha256 txn) txids = no ∧
      CommitsTo sha256 yes ∧ CommitsTo sha256 no := by
  obtain ⟨yes, hyes⟩ := exists_hash_notMem [txn.take 32] (by simp)
  obtain ⟨no, hno⟩ := exists_hash_notMem [yes.bytes, carried false txn, txn.take 32] (by simp)
  simp only [List.mem_cons, List.not_mem_nil, or_false, not_or] at hyes hno
  have hdistinct : yes ≠ no := fun heq => hno.1 (heq ▸ rfl)
  have htxn : carried false txn ≠ no.bytes := fun heq => hno.2.1 heq.symm
  have hleaf : doubleSha256 (tracingHash false txn yes no) txn = yes :=
    doubleSha256_of_tracingHash hdistinct htxn (Or.inl rfl) tracingHash_txn
  -- two nodes are neither the text nor do they carry anything
  have hpair : ∀ left right : Hash32, left.bytes ≠ txn.take 32 →
      hashPair (tracingHash false txn yes no) left right = no := by
    intro left right hleft
    apply doubleSha256_of_tracingHash hdistinct htxn (Or.inr rfl)
    apply tracingHash_other
    · rintro rfl
      exact hleft (List.take_left' left.length_eq).symm
    · rw [carried, if_neg (by simp [Hash32.length_eq]), if_pos (by simp [Hash32.length_eq]),
        if_neg Bool.false_ne_true]
      intro heq
      have hlen := congrArg List.length heq
      rw [yes.length_eq] at hlen
      cases hlen
  refine ⟨tracingHash false txn yes no, yes, no, hdistinct, hleaf, ?_, ?_, ?_⟩
  · rw [hleaf]
    cases txids with
    | nil => exact absurd rfl htxids
    | cons txid txids =>
      rw [Merkle.root, hpair yes txid hyes]
      exact Merkle.root_of_combine_eq _ (fun node => hpair no node hno.2.2) _
  · exact commitsTo_tracingHash hdistinct htxn (Or.inl rfl)
  · exact commitsTo_tracingHash hdistinct htxn (Or.inr rfl)

/-! ## The hash of the work -/

theorem length_siaPrevhash (sha256 : List UInt8 → Hash32) (prevhash : List UInt8) :
    (siaPrevhash sha256 prevhash).length = 32 := by
  simp [siaPrevhash, Hash32.length_eq]

theorem length_siaCoinb1 (commitment : Hash32) : (siaCoinb1 commitment).length = 39 := by
  simp [siaCoinb1, commitment.length_eq]

theorem length_xorKeyMask (sha256 : List UInt8 → Hash32) (xorKey : List UInt8)
    (clearBits : UInt8) : (xorKeyMask sha256 xorKey clearBits).length = 32 := by
  rw [xorKeyMask]
  split
  · rfl
  · rw [List.length_mapIdx, Hash32.length_eq]

theorem length_powHashLe (sha256 blake2b : List UInt8 → Hash32) (work xorKey : List UInt8)
    (clearBits : UInt8) : (powHashLe sha256 blake2b work xorKey clearBits).length = 32 := by
  rw [powHashLe, List.length_reverse, List.length_zipWith, Hash32.length_eq, length_xorKeyMask]
  rfl

/-- Bytes that mask to zero are the mask. -/
theorem eq_of_zipWith_xor {bytes mask : List UInt8} (hlen : bytes.length = mask.length)
    (h : ∀ byte ∈ List.zipWith (· ^^^ ·) bytes mask, byte = 0) : bytes = mask := by
  induction bytes generalizing mask with
  | nil => exact (List.eq_nil_of_length_eq_zero hlen.symm).symm
  | cons byte bytes ih =>
    cases mask with
    | nil => cases hlen
    | cons first mask =>
      rw [List.zipWith_cons_cons, List.forall_mem_cons] at h
      rw [ih (Nat.succ.inj hlen) h.2, UInt8.xor_eq_zero_iff.mp h.1]

theorem zipWith_xor_self (bytes : List UInt8) :
    List.zipWith (· ^^^ ·) bytes bytes = List.replicate bytes.length 0 := by
  induction bytes with
  | nil => rfl
  | cons byte bytes ih =>
    rw [List.zipWith_cons_cons, ih, UInt8.xor_self, List.length_cons, List.replicate_succ]

/-- Two commitments give work of which one meets every target and the other has
    another hash. -/
theorem exists_blake2b_of_ne (sha256 : List UInt8 → Hash32) {commitment other : Hash32}
    (hne : commitment ≠ other) {nonce ntime extranonce : List UInt8} (hnonce : nonce.length = 8)
    (hntime : ntime.length = 8) (hextranonce : extranonce.length = 12)
    (prevhash xorKey : List UInt8) (clearBits : UInt8) :
    ∃ blake2b : List UInt8 → Hash32,
      powHashLe sha256 blake2b (workHeader sha256 prevhash nonce ntime
        (workRoot blake2b commitment extranonce)) xorKey clearBits = List.replicate 32 0 ∧
      powHashLe sha256 blake2b (workHeader sha256 prevhash nonce ntime
        (workRoot blake2b other extranonce)) xorKey clearBits ≠ List.replicate 32 0 := by
  let mask : Hash32 := ⟨xorKeyMask sha256 xorKey clearBits, length_xorKeyMask _ _ _⟩
  obtain ⟨miss, hmiss⟩ := exists_hash_notMem [mask.bytes] (by simp)
  obtain ⟨root, hroot⟩ := exists_hash_notMem [miss.bytes] (by simp)
  rw [List.mem_singleton] at hmiss hroot
  let leaf (commitment : Hash32) : List UInt8 := 0 :: (siaCoinb1 commitment ++ extranonce)
  let work (root : Hash32) : List UInt8 := workHeader sha256 prevhash nonce ntime root
  have hleafLen (commitment : Hash32) : (leaf commitment).length = 52 := by
    simp [leaf, length_siaCoinb1, hextranonce]
  have hworkLen (root : Hash32) : (work root).length = 80 := by
    simp [work, workHeader, length_siaPrevhash, hnonce, hntime, root.length_eq]
  have hleafWork (commitment root : Hash32) : work root ≠ leaf commitment := by
    intro heq
    have hlen := congrArg List.length heq
    rw [hleafLen, hworkLen] at hlen
    cases hlen
  have hleaf : leaf other ≠ leaf commitment := by
    intro heq
    have hcoinb1 := List.append_cancel_right (List.cons.inj heq).2
    exact hne (Hash32.ext_bytes
      (List.append_cancel_left (List.append_cancel_right hcoinb1)).symm)
  have hwork : work miss ≠ work root := by
    intro heq
    have hbytes := List.append_cancel_left (List.append_cancel_left (List.append_cancel_left heq))
    exact hroot hbytes.symm
  let blake2b (data : List UInt8) : Hash32 :=
    if data = leaf commitment then root else if data = work root then mask else miss
  have hcommitted : workRoot blake2b commitment extranonce = root := if_pos rfl
  have hother : workRoot blake2b other extranonce = miss := by
    show (if leaf other = leaf commitment then root
      else if leaf other = work root then mask else miss) = miss
    rw [if_neg hleaf, if_neg (hleafWork other root).symm]
  refine ⟨blake2b, ?_, ?_⟩
  · have hhash : blake2b (work root) = mask := by
      show (if work root = leaf commitment then root
        else if work root = work root then mask else miss) = mask
      rw [if_neg (hleafWork commitment root), if_pos rfl]
    rw [hcommitted, powHashLe, hhash, zipWith_xor_self, length_xorKeyMask, List.reverse_replicate]
  · have hhash : blake2b (work miss) = miss := by
      show (if work miss = leaf commitment then root
        else if work miss = work root then mask else miss) = miss
      rw [if_neg (hleafWork commitment miss), if_neg hwork]
    rw [hother, powHashLe, hhash]
    intro hzero
    apply hmiss
    apply eq_of_zipWith_xor (miss.length_eq.trans mask.length_eq.symm)
    intro byte hbyte
    rw [← List.mem_reverse, hzero] at hbyte
    exact List.eq_of_mem_replicate hbyte

end ChirpGateway
