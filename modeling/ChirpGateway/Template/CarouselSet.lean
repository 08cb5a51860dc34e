import ChirpGateway.Lib.Wire
import ChirpGateway.Pow.Distinguish
import ChirpGateway.Template.Carousel

/-!
# The fresh set of a cycle

Which suppliers a cycle rotates over, and what of it depends on the order in which
the directory is listed. The comment at `CAROUSEL_MAX_SET`
(`datum_blocktemplates.h:208-210`) has all files collected and sorted before the set
is cut; the loop (`datum_blocktemplates.c:739-749`) stops collecting at the limit.
-/

namespace ChirpGateway

open Bytes

variable (cfg : TemplateConfig) (ourPh : List UInt8)

/-- The addresses of all fresh caches, in the order of the listing. -/
def freshAddresses (listing : List CacheFile) : List (List UInt8) :=
  listing.filterMap (freshAddress cfg ourPh)

/-- The bytewise first addresses of all that are fresh. -/
def firstAddresses (listing : List CacheFile) : List (List UInt8) :=
  ((Qsort.insertionSorter _).sort strcmp (freshAddresses cfg ourPh listing)).take carouselMaxSet

/-- The loop stops at the limit. -/
theorem collectNames_eq (n : Nat) (listing : List CacheFile) :
    collectNames cfg ourPh n listing =
      (freshAddresses cfg ourPh listing).take (carouselMaxSet - n) := by
  induction listing generalizing n with
  | nil => exact (List.take_nil).symm
  | cons file rest ih =>
    unfold collectNames
    by_cases hn : n < carouselMaxSet
    · rw [if_pos hn]
      cases haddress : freshAddress cfg ourPh file with
      | none =>
        rw [freshAddresses, List.filterMap_cons_none haddress]
        exact ih n
      | some address =>
        have hroom : carouselMaxSet - n = (carouselMaxSet - (n + 1)) + 1 := by omega
        rw [freshAddresses, List.filterMap_cons_some haddress, hroom, List.take_succ_cons]
        dsimp only
        rw [ih (n + 1)]
        rfl
    · have hfull : carouselMaxSet - n = 0 := by omega
      rw [if_neg hn, hfull, List.take_zero]

theorem collectNames_of_length_le {listing : List CacheFile}
    (hle : (freshAddresses cfg ourPh listing).length ≤ carouselMaxSet) :
    collectNames cfg ourPh 0 listing = freshAddresses cfg ourPh listing := by
  rw [collectNames_eq]
  exact List.take_of_length_le hle

/-- With no more files than the limit, the sorted set is the one of the files,
    however they are listed. -/
theorem sort_collectNames (sorter : Qsort.Sorter (List UInt8)) {order listing : List CacheFile}
    (hperm : order.Perm listing)
    (hle : (freshAddresses cfg ourPh listing).length ≤ carouselMaxSet) :
    sorter.sort strcmp (collectNames cfg ourPh 0 order) = firstAddresses cfg ourPh listing := by
  have hfresh : (freshAddresses cfg ourPh order).Perm (freshAddresses cfg ourPh listing) :=
    hperm.filterMap _
  have hsorted : (Qsort.insertionSorter _).sort strcmp (freshAddresses cfg ourPh listing) =
      sorter.sort strcmp (freshAddresses cfg ourPh listing) :=
    Qsort.Sorter.sort_eq _ strcmp_consistent (fun a _ b _ => strcmp_antisymm a b)
      (sorter.perm _ _) (sorter.sorted _ _ strcmp_consistent)
  rw [collectNames_of_length_le cfg ourPh (hfresh.length_eq.trans_le hle),
    sort_strcmp_eq_of_perm sorter hfresh, firstAddresses, hsorted]
  rw [List.take_of_length_le ((sorter.perm _ _).length_eq.trans_le hle)]

/-! ## Names and addresses -/

theorem cacheAddress_eq_some_iff {name address : List UInt8} :
    cacheAddress name = some address ↔
      name = address ++ ascii ".json" ∧ address ≠ [] ∧ address.length ≤ 127 := by
  unfold cacheAddress
  have hsuffix : (ascii ".json").length = 5 := by decide
  constructor
  · intro h
    split at h
    · next hname =>
      obtain ⟨hlow, hhigh, hend⟩ := hname
      have hmin : min (name.length - 5) 127 = name.length - 5 := by omega
      rw [hmin] at h
      obtain rfl := Option.some.inj h
      refine ⟨?_, ?_, ?_⟩
      · rw [← hend, List.take_append_drop]
      · intro hnil
        have hlen := congrArg List.length hnil
        rw [List.length_take, List.length_nil] at hlen
        omega
      · rw [List.length_take]
        omega
    · cases h
  · rintro ⟨rfl, hne, hle⟩
    have hpos := List.length_pos_iff.mpr hne
    have hlen : (address ++ ascii ".json").length = address.length + 5 := by
      rw [List.length_append, hsuffix]
    have hmin : min (address.length + 5 - 5) 127 = address.length := by omega
    rw [hlen, hmin, Nat.add_sub_cancel, List.drop_left, List.take_left, if_pos]
    exact ⟨by omega, by omega, rfl⟩

theorem freshAddress_eq_some_iff {file : CacheFile} {address : List UInt8} :
    freshAddress cfg ourPh file = some address ↔
      cacheAddress file.name = some address ∧
        carouselCacheFresh cfg ourPh file.document = true := by
  unfold freshAddress
  rw [Option.bind_eq_some_iff]
  constructor
  · rintro ⟨found, hfound, h⟩
    split at h
    · next hfresh => exact ⟨(Option.some.inj h) ▸ hfound, hfresh⟩
    · cases h
  · rintro ⟨hfound, hfresh⟩
    exact ⟨address, hfound, if_pos hfresh⟩

/-- Different files have different addresses. -/
theorem freshAddresses_nodup {listing : List CacheFile}
    (hnames : (listing.map CacheFile.name).Nodup) :
    (freshAddresses cfg ourPh listing).Nodup := by
  induction listing with
  | nil => exact List.nodup_nil
  | cons file rest ih =>
    obtain ⟨hfresh, hrest⟩ := List.nodup_cons.mp hnames
    cases haddress : freshAddress cfg ourPh file with
    | none =>
      rw [freshAddresses, List.filterMap_cons_none haddress]
      exact ih hrest
    | some address =>
      rw [freshAddresses, List.filterMap_cons_some haddress, List.nodup_cons]
      refine ⟨?_, ih hrest⟩
      intro hmem
      obtain ⟨other, hother, hsame⟩ := List.mem_filterMap.mp hmem
      have hname := (freshAddress_eq_some_iff cfg ourPh).mp haddress
      have hotherName := (freshAddress_eq_some_iff cfg ourPh).mp hsame
      have heq : other.name = file.name := by
        rw [(cacheAddress_eq_some_iff.mp hotherName.1).1, (cacheAddress_eq_some_iff.mp hname.1).1]
      exact hfresh (List.mem_map.mpr ⟨other, hother, heq⟩)

theorem length_of_mem_freshAddresses {listing : List CacheFile} {address : List UInt8}
    (h : address ∈ freshAddresses cfg ourPh listing) : address.length ≤ 127 := by
  obtain ⟨file, _, hfile⟩ := List.mem_filterMap.mp h
  exact (cacheAddress_eq_some_iff.mp ((freshAddress_eq_some_iff cfg ourPh).mp hfile).1).2.2

/-! ## The rotation of a cycle -/

variable {cfg ourPh}

/-- The cycle gets to the rotation. -/
structure Rotates (cfg : TemplateConfig) (ourPh : List UInt8) (resVal : Json) : Prop where
  template : cfg.miningBlake2bTemplate = true
  prevhash : resVal.stringAt "previousblockhash" = some ourPh
  activated : preActivation cfg resVal = false
  carousel : cfg.miningBlake2bTemplateCarousel = true
  dir : cfg.miningTemplateDir ≠ []

section Cycle

variable {blake2b : List UInt8 → Hash32} {sorter : Qsort.Sorter (List UInt8)}
  {st : SupplierState} {reload : List UInt8 → Option Json} {resVal : Json}

theorem applySupplier_of_rotates (h : Rotates cfg ourPh resVal) (files : TemplateFiles) :
    applySupplier cfg blake2b sorter st files resVal =
      carouselCycle cfg ourPh blake2b sorter (activate cfg st) files resVal := by
  unfold applySupplier
  rw [if_pos h.template, h.prevhash]
  dsimp only
  rw [h.activated, if_neg Bool.false_ne_true, h.carousel, if_pos]
  simpa using h.dir

/-- The buffer of an address cuts nothing off the addresses of the set. -/
theorem map_take_of_short {names : List (List UInt8)}
    (hle : ∀ name ∈ names, name.length ≤ 127) :
    names.map (fun name => name.take 127) = names := by
  rw [List.map_congr_left fun name hname => List.take_of_length_le (hle name hname)]
  exact List.map_id names

/-- The addresses published are the ones rotated over. -/
theorem set_rotateOver {names : List (List UInt8)} (hle : ∀ name ∈ names, name.length ≤ 127) :
    (rotateOver cfg ourPh blake2b st reload resVal names).1.rot.set = names := by
  have hwhole := map_take_of_short hle
  cases names with
  | nil => rfl
  | cons name rest =>
    rw [rotateOver, serveScheduled]
    dsimp only
    split
    · exact hwhole
    · split
      · exact hwhole
      · exact hwhole

theorem length_of_mem_sort_collectNames {order : List CacheFile} {name : List UInt8}
    (h : name ∈ sorter.sort strcmp (collectNames cfg ourPh 0 order)) : name.length ≤ 127 := by
  have hmem : name ∈ collectNames cfg ourPh 0 order := (sorter.perm _ _).mem_iff.mp h
  rw [collectNames_eq] at hmem
  exact length_of_mem_freshAddresses cfg ourPh (List.mem_of_mem_take hmem)

/-- A cycle that rotates, over the files in this order. -/
theorem applySupplier_eq_rotateOver (h : Rotates cfg ourPh resVal) (files : TemplateFiles)
    (order : List CacheFile) :
    applySupplier cfg blake2b sorter st { files with listing := some order } resVal =
      rotateOver cfg ourPh blake2b (advanceCycle ourPh (activate cfg st)) files.reload resVal
        (sorter.sort strcmp (collectNames cfg ourPh 0 order)) :=
  applySupplier_of_rotates h _

theorem set_applySupplier (h : Rotates cfg ourPh resVal) (files : TemplateFiles)
    (order : List CacheFile) :
    (applySupplier cfg blake2b sorter st { files with listing := some order } resVal).1.rot.set =
      sorter.sort strcmp (collectNames cfg ourPh 0 order) := by
  rw [applySupplier_eq_rotateOver h]
  exact set_rotateOver fun _ => length_of_mem_sort_collectNames

end Cycle

/-! ## The pick as a function of the files -/

/-- Whatever order the directory is listed in, the cycle ends the same, and its set
    is the bytewise first of the fresh addresses. -/
def PublicPick (cfg : TemplateConfig) (ourPh : List UInt8) (blake2b : List UInt8 → Hash32)
    (sorter : Qsort.Sorter (List UInt8)) (st : SupplierState) (files : TemplateFiles)
    (listing : List CacheFile) (resVal : Json) : Prop :=
  ∀ order, order.Perm listing →
    applySupplier cfg blake2b sorter st { files with listing := some order } resVal =
        applySupplier cfg blake2b sorter st { files with listing := some listing } resVal ∧
      (applySupplier cfg blake2b sorter st { files with listing := some order } resVal).1.rot.set =
        firstAddresses cfg ourPh listing

section Pick

variable {blake2b : List UInt8 → Hash32} {sorter : Qsort.Sorter (List UInt8)}
  {st : SupplierState} {files : TemplateFiles} {listing : List CacheFile} {resVal : Json}

/-- Above the limit, a file outside of the first can be listed early and is then in
    the set. -/
theorem not_publicPick (hrotates : Rotates cfg ourPh resVal)
    (hnames : (listing.map CacheFile.name).Nodup)
    (hmany : carouselMaxSet < (freshAddresses cfg ourPh listing).length) :
    ¬ PublicPick cfg ourPh blake2b sorter st files listing resVal := by
  intro hpublic
  have hperm : ((Qsort.insertionSorter _).sort strcmp (freshAddresses cfg ourPh listing)).Perm
      (freshAddresses cfg ourPh listing) := (Qsort.insertionSorter _).perm _ _
  set sorted := (Qsort.insertionSorter _).sort strcmp (freshAddresses cfg ourPh listing)
    with hsorted
  have hnodup : sorted.Nodup := hperm.nodup_iff.mpr (freshAddresses_nodup cfg ourPh hnames)
  have hlen : carouselMaxSet < sorted.length := hmany.trans_eq hperm.length_eq.symm
  -- the first address that is cut off after sorting
  have hlast : sorted[carouselMaxSet] ∉ firstAddresses cfg ourPh listing := by
    intro hmem
    obtain ⟨i, hi, hsame⟩ := List.mem_take_iff_getElem.mp hmem
    have heq := (hnodup.getElem_inj_iff).mp hsame
    omega
  obtain ⟨file, hfile, haddress⟩ :=
    List.mem_filterMap.mp (hperm.mem_iff.mp (List.getElem_mem hlen))
  obtain ⟨front, back, hsplit⟩ := List.append_of_mem hfile
  have horder : (file :: (front ++ back)).Perm listing := hsplit ▸ List.perm_middle.symm
  obtain ⟨_, hset⟩ := hpublic _ horder
  rw [set_applySupplier hrotates] at hset
  apply hlast
  rw [← hset, (sorter.perm _ _).mem_iff, collectNames_eq, freshAddresses,
    List.filterMap_cons_some haddress]
  exact List.mem_cons_self

/-- The pick is a function of the files, and of none of them beyond the limit,
    exactly when no more than `carouselMaxSet` of them are fresh. -/
theorem publicPick_iff (hrotates : Rotates cfg ourPh resVal)
    (hnames : (listing.map CacheFile.name).Nodup) :
    PublicPick cfg ourPh blake2b sorter st files listing resVal ↔
      (freshAddresses cfg ourPh listing).length ≤ carouselMaxSet := by
  constructor
  · intro hpublic
    by_contra hmany
    exact not_publicPick hrotates hnames (Nat.lt_of_not_le hmany) hpublic
  · intro hle order hperm
    rw [set_applySupplier hrotates, applySupplier_eq_rotateOver hrotates,
      applySupplier_eq_rotateOver hrotates, sort_collectNames cfg ourPh sorter hperm hle,
      sort_collectNames cfg ourPh sorter (List.Perm.refl _) hle]
    exact ⟨rfl, rfl⟩

end Pick

/-! ## One file too many -/

/-- A carousel without validation stamps. -/
def openCarousel : TemplateConfig where
  miningBlake2bTemplate := true
  miningBlake2bTemplateCarousel := true
  miningTemplateDir := ascii "template_live"
  miningTemplateFile := []
  miningTemplateSupplierAddress := []
  miningTemplateActivateHeight := 0
  miningTemplateActivateTag := []
  miningTemplateRequireValidated := false
  miningCarouselBlockStride := 0

def tipHash : List UInt8 := List.replicate 64 0x30

/-- The node's reply at that tip. -/
def tipReply : Json :=
  .object [("previousblockhash", .string tipHash), ("height", .integer 900000)]

/-- A cache with a number for its address. -/
def numberedFile (i : Nat) : CacheFile where
  name := Hex.encode (Wire.leBytes 2 i) ++ ascii ".json"
  document := some (.object [("previousblockhash", .string tipHash), ("transactions", .array [])])

/-- Every file is loaded as it was found. -/
def numberedFiles : TemplateFiles where
  listing := none
  reload := fun _ => (numberedFile 0).document
  single := none

theorem rotates_openCarousel : Rotates openCarousel tipHash tipReply where
  template := rfl
  prevhash := rfl
  activated := by decide
  carousel := rfl
  dir := by decide

theorem length_encode_leBytes (i : Nat) : (Hex.encode (Wire.leBytes 2 i)).length = 4 := rfl

theorem freshAddress_numberedFile (i : Nat) :
    freshAddress openCarousel tipHash (numberedFile i) = some (Hex.encode (Wire.leBytes 2 i)) := by
  refine (freshAddress_eq_some_iff _ _).mpr
    ⟨cacheAddress_eq_some_iff.mpr ⟨rfl, ?_, ?_⟩, rfl⟩
  · exact List.ne_nil_of_length_eq_add_one (length_encode_leBytes i)
  · rw [length_encode_leBytes]
    decide

theorem length_freshAddresses_numbered (numbers : List Nat) :
    (freshAddresses openCarousel tipHash (numbers.map numberedFile)).length = numbers.length := by
  induction numbers with
  | nil => rfl
  | cons i rest ih =>
    rw [List.map_cons, freshAddresses, List.filterMap_cons_some (freshAddress_numberedFile i),
      List.length_cons, List.length_cons]
    exact congrArg (· + 1) ih

theorem numberedNames_nodup {count : Nat} (hcount : count ≤ 65536) :
    (((List.range count).map numberedFile).map CacheFile.name).Nodup := by
  rw [List.map_map]
  refine List.Nodup.map_on ?_ List.nodup_range
  intro i hi j hj hname
  have hi := List.mem_range.mp hi
  have hj := List.mem_range.mp hj
  have hencoded : Hex.encode (Wire.leBytes 2 i) = Hex.encode (Wire.leBytes 2 j) :=
    List.append_cancel_right hname
  have hdecoded := congrArg Hex.decode hencoded
  rw [← List.append_nil (Hex.encode (Wire.leBytes 2 i)),
    ← List.append_nil (Hex.encode (Wire.leBytes 2 j)), Hex.decode_encode_append,
    Hex.decode_encode_append, List.append_cancel_right_eq] at hdecoded
  have hvalue := congrArg Wire.leValue hdecoded
  rwa [Wire.leValue_leBytes_of_lt (by omega), Wire.leValue_leBytes_of_lt (by omega)] at hvalue

/-- The files of a small carousel. -/
theorem publicPick_three : PublicPick openCarousel tipHash (fun _ => uniformHash 0)
    (Qsort.insertionSorter _) (initialState []) numberedFiles ((List.range 3).map numberedFile)
    tipReply :=
  (publicPick_iff rotates_openCarousel (numberedNames_nodup (by decide))).mpr
    ((length_freshAddresses_numbered _).trans_le (by decide))

/-- 4097 fresh caches: the set depends on the order of the listing. -/
theorem not_publicPick_4097 : ¬ PublicPick openCarousel tipHash (fun _ => uniformHash 0)
    (Qsort.insertionSorter _) (initialState []) numberedFiles ((List.range 4097).map numberedFile)
    tipReply := by
  apply not_publicPick rotates_openCarousel (numberedNames_nodup (by decide))
  rw [length_freshAddresses_numbered, List.length_range]
  decide

end ChirpGateway
