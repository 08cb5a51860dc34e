import ChirpGateway.Lib.Hex
import ChirpGateway.Lib.Qsort
import ChirpGateway.Template.Swap

/-!
# The supplier of a cycle

`datum_template_apply_supplier` (`datum_blocktemplates.c:592-834`): in every work
cycle the template thread puts the transactions of one supplier into the node's
reply. In carousel mode the supplier is picked by rotation from the files of a
directory, in single mode there is one file.

`blake2b` is the hash function, `sorter` is `qsort`.
-/

namespace ChirpGateway

open Bytes

/-- The settings of template mode. -/
structure TemplateConfig where
  miningBlake2bTemplate : Bool
  miningBlake2bTemplateCarousel : Bool
  miningTemplateDir : List UInt8
  miningTemplateFile : List UInt8
  miningTemplateSupplierAddress : List UInt8
  miningTemplateActivateHeight : Int
  miningTemplateActivateTag : List UInt8
  miningTemplateRequireValidated : Bool
  miningCarouselBlockStride : Int

/-- `T_CAROUSEL_ROTATION`, without the time of the update and `skipped`, which
    stays 0. -/
structure CarouselRotation where
  prevhash : List UInt8
  height : UInt64
  active : Bool
  activateHeight : UInt64
  cycle : UInt32
  n : Nat
  nPrevBlock : Nat
  start : Nat
  /-- -1 when nothing was scheduled -/
  idx : Int
  failed : Bool
  pick : List UInt8
  setHash : List UInt8
  set : List (List UInt8)

/-- What the template thread keeps from one cycle to the next. -/
structure SupplierState where
  crPrev : List UInt8
  crCycle : UInt32
  carouselSupplier : List UInt8
  carouselSupplierName : List UInt8
  activated : Bool
  coinbaseTagPrimary : List UInt8
  rot : CarouselRotation

/-- The state the gateway starts in, with the tag of its configuration. -/
def initialState (coinbaseTagPrimary : List UInt8) : SupplierState where
  crPrev := []
  crCycle := 0
  carouselSupplier := []
  carouselSupplierName := []
  activated := false
  coinbaseTagPrimary := coinbaseTagPrimary
  rot :=
    { prevhash := []
      height := 0
      active := false
      activateHeight := 0
      cycle := 0
      n := 0
      nPrevBlock := 0
      start := 0
      idx := 0
      failed := false
      pick := []
      setHash := []
      set := [] }

/-- A file of the directory, with what `json_load_file` makes of it. -/
structure CacheFile where
  name : List UInt8
  document : Option Json

/-- What a cycle finds on the disk. -/
structure TemplateFiles where
  /-- in the order of `readdir`; `none` when the directory cannot be opened -/
  listing : Option (List CacheFile)
  /-- the load of the scheduled file, by its address -/
  reload : List UInt8 → Option Json
  single : Option Json

/-! ## The name of a supplier -/

/-- `datum_template_set_supplier_name`: printable characters, 39 at most. -/
def supplierName (sup : Json) : List UInt8 :=
  (((sup.stringAt "name").getD []).filter fun ch => 0x20 ≤ ch && ch ≤ 0x7e).take 39

/-! ## The fresh set -/

/-- `strcmp`, by its sign. -/
def strcmp : List UInt8 → List UInt8 → Int
  | [], [] => 0
  | [], _ :: _ => -1
  | _ :: _, [] => 1
  | a :: as, b :: bs => if a < b then -1 else if b < a then 1 else strcmp as bs

/-- `CAROUSEL_MAX_SET`. -/
def carouselMaxSet : Nat := 4096

/-- The address in the name of a file that counts as a cache. -/
def cacheAddress (name : List UInt8) : Option (List UInt8) :=
  if 5 < name.length ∧ name.length ≤ 132 ∧ name.drop (name.length - 5) = ascii ".json" then
    some (name.take (min (name.length - 5) 127))
  else
    none

variable (cfg : TemplateConfig) (ourPh : List UInt8)

/-- `carousel_cache_fresh`. -/
def carouselCacheFresh (document : Option Json) : Bool :=
  match document with
  | none => false
  | some sup =>
    sup.stringAt "previousblockhash" = some ourPh && (sup.arrayAt "transactions").isSome &&
      !sup.isTrueAt "stale" &&
      (!cfg.miningTemplateRequireValidated ||
        (sup.objectGet "validated").any fun validated => validated.isTrueAt "proposal")

/-- The address of a file that is a fresh cache. -/
def freshAddress (file : CacheFile) : Option (List UInt8) :=
  (cacheAddress file.name).bind fun address =>
    if carouselCacheFresh cfg ourPh file.document then some address else none

/-- The loop over the directory, `n` being the number of names collected. -/
def collectNames : (n : Nat) → List CacheFile → List (List UInt8)
  | _, [] => []
  | n, file :: rest =>
    if n < carouselMaxSet then
      match freshAddress cfg ourPh file with
      | some address => address :: collectNames (n + 1) rest
      | none => collectNames n rest
    else
      []

/-- `setbuf`: every name with a line break. -/
def setBuffer (names : List (List UInt8)) : List UInt8 :=
  names.flatMap fun name => name ++ [0x0a]

/-- The first eight bytes, as a big-endian number. -/
def bigEndian64 (bytes : List UInt8) : Nat :=
  (bytes.take 8).foldl (fun value byte => 256 * value + byte.toNat) 0

section Rotation

variable (blake2b : List UInt8 → Hash32)

/-- `set_hash`. -/
def carouselSetHash (names : List (List UInt8)) : List UInt8 :=
  Hex.encode ((blake2b (setBuffer names)).bytes.take 8)

/-- `start`. -/
def carouselStart (height : UInt64) (n : Nat) : Nat :=
  if cfg.miningCarouselBlockStride > 0 then
    (height * UInt64.ofInt cfg.miningCarouselBlockStride).toNat % n
  else
    bigEndian64 (blake2b ourPh).bytes % n

/-- `cr_prev` and `cr_cycle`, and the size of the set the last block ended with. -/
def advanceCycle (st : SupplierState) : SupplierState :=
  if st.crPrev = ourPh then
    { st with crCycle := st.crCycle + 1 }
  else
    { st with
      crPrev := ourPh.take 79
      crCycle := 0
      rot := { st.rot with nPrevBlock := st.rot.n } }

/-- No supplier is due. -/
def SupplierState.clearSupplier (st : SupplierState) : SupplierState :=
  { st with carouselSupplier := [], carouselSupplierName := [] }

/-- `carousel_rot_publish`. -/
def rotPublish (st : SupplierState) (height : UInt64) (start : Nat) (idx : Int) (failed : Bool)
    (pick setHash : List UInt8) (names : List (List UInt8)) : SupplierState :=
  { st with
    rot :=
      { st.rot with
        prevhash := ourPh.take 79
        height := height
        cycle := st.crCycle
        n := names.length
        start := start
        idx := idx
        failed := failed
        pick := pick.take 127
        setHash := setHash.take 16
        set := names.map fun name => name.take 127 } }

/-- The rotation over a set that is not empty: the scheduled supplier is served,
    or nobody. -/
def serveScheduled (st : SupplierState) (reload : List UInt8 → Option Json) (resVal : Json)
    (names : List (List UInt8)) : SupplierState × Json :=
  let height := jsonU64 (resVal.objectGet "height")
  let setHash := carouselSetHash blake2b names
  let start := carouselStart cfg ourPh blake2b height names.length
  let idx := (start + st.crCycle.toNat) % names.length
  let pick := names.getD idx []
  match reload pick with
  | none =>
    (rotPublish ourPh st.clearSupplier height start idx true [] setHash names, resVal)
  | some sup =>
    match swapFrom resVal sup (some ourPh) with
    | (false, _) =>
      (rotPublish ourPh st.clearSupplier height start idx true [] setHash names, resVal)
    | (true, resVal') =>
      let st := { st with
        carouselSupplier := pick.take 127
        carouselSupplierName := supplierName sup }
      (rotPublish ourPh st height start idx false pick setHash names, resVal')

/-- The cycle once the set is known. -/
def rotateOver (st : SupplierState) (reload : List UInt8 → Option Json) (resVal : Json) :
    List (List UInt8) → SupplierState × Json
  | [] =>
    (rotPublish ourPh st.clearSupplier (jsonU64 (resVal.objectGet "height")) 0 (-1) false [] [] [],
      resVal)
  | names@(_ :: _) => serveScheduled cfg ourPh blake2b st reload resVal names

variable (sorter : Qsort.Sorter (List UInt8))

/-- The carousel branch. -/
def carouselCycle (st : SupplierState) (files : TemplateFiles) (resVal : Json) :
    SupplierState × Json :=
  let st := advanceCycle ourPh st
  match files.listing with
  | none => (st.clearSupplier, resVal)
  | some listing =>
    rotateOver cfg ourPh blake2b st files.reload resVal
      (sorter.sort strcmp (collectNames cfg ourPh 0 listing))

end Rotation

/-- The branch for a single file, whose name goes into the coinbase also when the
    template is not taken. -/
def singleCycle (st : SupplierState) (files : TemplateFiles) (resVal : Json) :
    SupplierState × Json :=
  if cfg.miningTemplateFile = [] then (st, resVal)
  else
    match files.single with
    | none => ({ st with carouselSupplierName := [] }, resVal)
    | some sup =>
      let name :=
        if supplierName sup = [] then cfg.miningTemplateSupplierAddress.take 8
        else supplierName sup
      ({ st with carouselSupplierName := name }, (swapFrom resVal sup (some ourPh)).2)

/-- The height at which template mode begins has not come. -/
def preActivation (resVal : Json) : Bool :=
  cfg.miningTemplateActivateHeight > 0 &&
    (jsonU64 (resVal.objectGet "height")).toNat < cfg.miningTemplateActivateHeight

/-- What is published before activation. -/
def publishPreActivation (st : SupplierState) (resVal : Json) : SupplierState :=
  { st.clearSupplier with
    rot :=
      { st.rot with
        active := false
        activateHeight := UInt64.ofInt cfg.miningTemplateActivateHeight
        height := jsonU64 (resVal.objectGet "height")
        n := 0
        set := []
        idx := -1
        pick := [] } }

/-- The first cycle at the height turns template mode on and sets the tag. -/
def activate (st : SupplierState) : SupplierState :=
  if cfg.miningTemplateActivateHeight > 0 then
    if st.activated then st
    else
      { st with
        activated := true
        coinbaseTagPrimary :=
          if cfg.miningTemplateActivateTag = [] then st.coinbaseTagPrimary
          else cfg.miningTemplateActivateTag.take 63
        rot :=
          { st.rot with
            active := true
            activateHeight := UInt64.ofInt cfg.miningTemplateActivateHeight } }
  else
    { st with rot := { st.rot with active := true } }

/-- `datum_template_apply_supplier`: the state and the reply after the cycle. -/
def applySupplier (blake2b : List UInt8 → Hash32) (sorter : Qsort.Sorter (List UInt8))
    (st : SupplierState) (files : TemplateFiles) (resVal : Json) : SupplierState × Json :=
  if cfg.miningBlake2bTemplate then
    match resVal.stringAt "previousblockhash" with
    | none => (st, resVal)
    | some ourPh =>
      if preActivation cfg resVal then (publishPreActivation cfg st resVal, resVal)
      else
        let st := activate cfg st
        if cfg.miningBlake2bTemplateCarousel && cfg.miningTemplateDir ≠ [] then
          carouselCycle cfg ourPh blake2b sorter st files resVal
        else
          singleCycle cfg ourPh st files resVal
  else
    (st, resVal)

/-! ## The order of names -/

theorem strcmp_nil_le (b : List UInt8) : strcmp [] b ≤ 0 := by
  cases b with
  | nil => exact Int.le_refl 0
  | cons b bs =>
    rw [strcmp]
    decide

theorem not_strcmp_cons_nil_le (a : UInt8) (as : List UInt8) : ¬ strcmp (a :: as) [] ≤ 0 := by
  rw [strcmp]
  decide

/-- Behind or at: the first bytes decide, or what follows them. -/
theorem strcmp_cons_le_iff {a b : UInt8} {as bs : List UInt8} :
    strcmp (a :: as) (b :: bs) ≤ 0 ↔ a < b ∨ a = b ∧ strcmp as bs ≤ 0 := by
  rw [strcmp]
  by_cases hlt : a < b
  · rw [if_pos hlt]
    exact iff_of_true (by decide) (.inl hlt)
  · rw [if_neg hlt]
    by_cases hgt : b < a
    · rw [if_pos hgt]
      refine iff_of_false (by decide) ?_
      rintro (h | ⟨rfl, _⟩)
      · exact hlt h
      · exact hlt hgt
    · have heq : a = b := UInt8.le_antisymm (UInt8.not_lt.mp hgt) (UInt8.not_lt.mp hlt)
      rw [if_neg hgt]
      exact ⟨fun h => .inr ⟨heq, h⟩, fun h => (h.resolve_left hlt).2⟩

theorem strcmp_total : ∀ a b : List UInt8, strcmp a b ≤ 0 ∨ strcmp b a ≤ 0
  | [], b => .inl (strcmp_nil_le b)
  | _ :: _, [] => .inr (strcmp_nil_le _)
  | a :: as, b :: bs => by
    rw [strcmp_cons_le_iff, strcmp_cons_le_iff]
    rcases Nat.lt_trichotomy a.toNat b.toNat with hlt | heq | hgt
    · exact .inl (.inl (UInt8.lt_iff_toNat_lt.mpr hlt))
    · obtain rfl := UInt8.toNat_inj.mp heq
      rcases strcmp_total as bs with hle | hge
      · exact .inl (.inr ⟨rfl, hle⟩)
      · exact .inr (.inr ⟨rfl, hge⟩)
    · exact .inr (.inl (UInt8.lt_iff_toNat_lt.mpr hgt))

theorem strcmp_trans : ∀ a b c : List UInt8, strcmp a b ≤ 0 → strcmp b c ≤ 0 →
    strcmp a c ≤ 0
  | [], _, c, _, _ => strcmp_nil_le c
  | a :: as, [], _, hab, _ => absurd hab (not_strcmp_cons_nil_le a as)
  | _ :: _, b :: bs, [], _, hbc => absurd hbc (not_strcmp_cons_nil_le b bs)
  | a :: as, b :: bs, c :: cs, hab, hbc => by
    rw [strcmp_cons_le_iff] at hab hbc ⊢
    rcases hab with hab | ⟨rfl, hab⟩
    · rcases hbc with hbc | ⟨rfl, _⟩
      · exact .inl (UInt8.lt_trans hab hbc)
      · exact .inl hab
    · rcases hbc with hbc | ⟨rfl, hbc⟩
      · exact .inl hbc
      · exact .inr ⟨rfl, strcmp_trans as bs cs hab hbc⟩

theorem strcmp_antisymm : ∀ a b : List UInt8, strcmp a b ≤ 0 → strcmp b a ≤ 0 → a = b
  | [], [], _, _ => rfl
  | [], b :: bs, _, hba => absurd hba (not_strcmp_cons_nil_le b bs)
  | a :: as, [], hab, _ => absurd hab (not_strcmp_cons_nil_le a as)
  | a :: as, b :: bs, hab, hba => by
    rw [strcmp_cons_le_iff] at hab hba
    rcases hab with hab | ⟨rfl, hab⟩
    · rcases hba with hba | ⟨rfl, _⟩
      · exact absurd hba (UInt8.lt_asymm hab)
      · exact absurd hab (UInt8.lt_irrefl _)
    · have hrest := (hba.resolve_left (UInt8.lt_irrefl a)).2
      rw [strcmp_antisymm as bs hab hrest]

theorem strcmp_consistent : Qsort.Consistent strcmp where
  total := strcmp_total
  trans := strcmp_trans

/-- `qsort` does not see the order the names came in. -/
theorem sort_strcmp_eq_of_perm (sorter : Qsort.Sorter (List UInt8)) {xs ys : List (List UInt8)}
    (hperm : xs.Perm ys) : sorter.sort strcmp xs = sorter.sort strcmp ys :=
  sorter.sort_eq strcmp_consistent (fun a _ b _ => strcmp_antisymm a b)
    ((sorter.perm strcmp ys).trans hperm.symm) (sorter.sorted strcmp ys strcmp_consistent)

end ChirpGateway
