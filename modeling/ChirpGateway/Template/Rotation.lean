import ChirpGateway.Lib.RoundRobin
import ChirpGateway.Template.CarouselSet
import Mathlib.Data.List.GetD

/-!
# Taking turns in a carousel

The cycles of the template thread at one previous block: which supplier each of
them schedules, and what a failing one changes
(`datum_blocktemplates.c:592-607`, `712-820`).
-/

namespace ChirpGateway

open Bytes

/-- What a cycle of the template thread starts from. -/
structure CycleInput where
  files : TemplateFiles
  resVal : Json

section Run

variable (cfg : TemplateConfig) (blake2b : List UInt8 → Hash32)
  (sorter : Qsort.Sorter (List UInt8)) (tag : List UInt8)

/-- The state after a run of cycles, from the start of the gateway. -/
def stateAfter (cycles : List CycleInput) : SupplierState :=
  cycles.foldl
    (fun st input => (applySupplier cfg blake2b sorter st input.files input.resVal).1)
    (initialState tag)

/-- How a cycle ends that follows others. -/
def outcomeOf (before : List CycleInput) (input : CycleInput) : SupplierState × Json :=
  applySupplier cfg blake2b sorter (stateAfter cfg blake2b sorter tag before) input.files
    input.resVal

/-- The hash of a cycle that gets to the rotation. -/
def cycleHash (input : CycleInput) : Option (List UInt8) :=
  if cfg.miningBlake2bTemplate && !preActivation cfg input.resVal &&
      cfg.miningBlake2bTemplateCarousel && cfg.miningTemplateDir ≠ [] then
    input.resVal.stringAt "previousblockhash"
  else
    none

/-- How many cycles at a hash have gone by, without one at another hash since. -/
def earlierCycles (ourPh : List UInt8) (before : List CycleInput) : Nat :=
  ((before.filterMap (cycleHash cfg)).reverse.takeWhile fun ph => ph = ourPh).length

end Run

section Counter

variable {cfg : TemplateConfig} {blake2b : List UInt8 → Hash32}
  {sorter : Qsort.Sorter (List UInt8)} {ourPh : List UInt8}

theorem cycleHash_eq_some_iff {input : CycleInput} :
    cycleHash cfg input = some ourPh ↔ Rotates cfg ourPh input.resVal := by
  unfold cycleHash
  constructor
  · intro h
    split at h
    · next hcond =>
      simp only [Bool.and_eq_true, Bool.not_eq_true', decide_eq_true_eq] at hcond
      obtain ⟨⟨⟨htemplate, hactive⟩, hcarousel⟩, hdir⟩ := hcond
      exact ⟨htemplate, h, hactive, hcarousel, hdir⟩
    · cases h
  · intro h
    rw [if_pos, h.prevhash]
    simp [h.template, h.activated, h.carousel, h.dir]

theorem earlierCycles_append (before : List CycleInput) (input : CycleInput) :
    earlierCycles cfg ourPh (before ++ [input]) =
      match cycleHash cfg input with
      | none => earlierCycles cfg ourPh before
      | some ph => if ph = ourPh then earlierCycles cfg ourPh before + 1 else 0 := by
  unfold earlierCycles
  cases hhash : cycleHash cfg input with
  | none =>
    rw [List.filterMap_append, List.filterMap_cons_none hhash, List.filterMap_nil,
      List.append_nil]
  | some ph =>
    rw [List.filterMap_append, List.filterMap_cons_some hhash, List.filterMap_nil,
      List.reverse_append, List.reverse_singleton, List.singleton_append, List.takeWhile_cons]
    by_cases hph : ph = ourPh
    · simp [hph]
    · simp [hph]

/-- The statics of the rotation are the same. -/
structure SameCounter (st st' : SupplierState) : Prop where
  crPrev : st'.crPrev = st.crPrev
  crCycle : st'.crCycle = st.crCycle

theorem sameCounter_rotateOver (st : SupplierState) (reload : List UInt8 → Option Json)
    (resVal : Json) (names : List (List UInt8)) :
    SameCounter st (rotateOver cfg ourPh blake2b st reload resVal names).1 := by
  cases names with
  | nil => exact ⟨rfl, rfl⟩
  | cons name rest =>
    unfold rotateOver serveScheduled
    dsimp only
    split
    · exact ⟨rfl, rfl⟩
    · split
      · exact ⟨rfl, rfl⟩
      · exact ⟨rfl, rfl⟩

theorem sameCounter_activate (st : SupplierState) : SameCounter st (activate cfg st) := by
  unfold activate
  split
  · split
    · exact ⟨rfl, rfl⟩
    · exact ⟨rfl, rfl⟩
  · exact ⟨rfl, rfl⟩

theorem sameCounter_singleCycle (st : SupplierState) (files : TemplateFiles) (resVal : Json) :
    SameCounter st (singleCycle cfg ourPh st files resVal).1 := by
  unfold singleCycle
  split
  · exact ⟨rfl, rfl⟩
  · split
    · exact ⟨rfl, rfl⟩
    · exact ⟨rfl, rfl⟩

/-- A cycle that does not get to the rotation leaves its statics. -/
theorem sameCounter_of_cycleHash_none {input : CycleInput} (h : cycleHash cfg input = none)
    (st : SupplierState) :
    SameCounter st (applySupplier cfg blake2b sorter st input.files input.resVal).1 := by
  unfold applySupplier
  by_cases htemplate : cfg.miningBlake2bTemplate = true
  · rw [if_pos htemplate]
    cases hph : input.resVal.stringAt "previousblockhash" with
    | none => exact ⟨rfl, rfl⟩
    | some ph =>
      dsimp only
      by_cases hpre : preActivation cfg input.resVal = true
      · rw [if_pos hpre]
        exact ⟨rfl, rfl⟩
      · rw [if_neg hpre]
        by_cases hcarousel :
            (cfg.miningBlake2bTemplateCarousel && cfg.miningTemplateDir ≠ []) = true
        · exfalso
          have hnone : cycleHash cfg input ≠ none := by
            unfold cycleHash
            simp only [Bool.and_eq_true, decide_eq_true_eq] at hcarousel
            simp [htemplate, hpre, hcarousel.1, hcarousel.2, hph]
          exact hnone h
        · rw [if_neg hcarousel]
          have hactivate : SameCounter st (activate cfg st) := sameCounter_activate st
          have hsingle : SameCounter (activate cfg st)
              (singleCycle cfg ph (activate cfg st) input.files input.resVal).1 :=
            sameCounter_singleCycle _ _ _
          exact ⟨hsingle.crPrev.trans hactivate.crPrev, hsingle.crCycle.trans hactivate.crCycle⟩
  · rw [if_neg htemplate]
    exact ⟨rfl, rfl⟩

/-- A cycle that gets to the rotation advances them. -/
theorem sameCounter_of_rotates {input : CycleInput} (h : Rotates cfg ourPh input.resVal)
    (st : SupplierState) : SameCounter (advanceCycle ourPh (activate cfg st))
      (applySupplier cfg blake2b sorter st input.files input.resVal).1 := by
  rw [applySupplier_of_rotates h, carouselCycle]
  cases input.files.listing with
  | none => exact ⟨rfl, rfl⟩
  | some listing => exact sameCounter_rotateOver _ _ _ _

/-- The statics count the cycles at a hash, in 32 bits. -/
structure CountsCycles (ourPh : List UInt8) (st : SupplierState) (count : Nat) : Prop where
  fresh : count = 0 → st.crPrev ≠ ourPh
  counted : 0 < count → st.crPrev = ourPh ∧ st.crCycle + 1 = UInt32.ofNat count

theorem countsCycles_advance (hph : ourPh.length = 64) {st : SupplierState} {count : Nat}
    (h : CountsCycles ourPh st count) : CountsCycles ourPh (advanceCycle ourPh st) (count + 1) ∧
      (advanceCycle ourPh st).crCycle = UInt32.ofNat count := by
  unfold advanceCycle
  rcases Nat.eq_zero_or_pos count with rfl | hpos
  · have hwhole : ourPh.take 79 = ourPh := List.take_of_length_le (by omega)
    rw [if_neg (h.fresh rfl)]
    exact ⟨⟨nofun, fun _ => ⟨hwhole, rfl⟩⟩, rfl⟩
  · obtain ⟨hprev, hcycle⟩ := h.counted hpos
    rw [if_pos hprev]
    refine ⟨⟨nofun, fun _ => ⟨hprev, ?_⟩⟩, hcycle⟩
    rw [UInt32.ofNat_add]
    exact congrArg (· + 1) hcycle

/-- A cycle at another hash begins the count anew. -/
theorem countsCycles_advance_of_ne (hph : ourPh.length = 64) {ph : List UInt8}
    (hne : ph ≠ ourPh) (st : SupplierState) : CountsCycles ourPh (advanceCycle ph st) 0 := by
  refine ⟨fun _ => ?_, fun h => absurd h (Nat.lt_irrefl 0)⟩
  unfold advanceCycle
  by_cases hprev : st.crPrev = ph
  · rw [if_pos hprev]
    exact fun h => hne (hprev.symm.trans h)
  · rw [if_neg hprev]
    intro hcut
    have hcut : ph.take 79 = ourPh := hcut
    have hlen := congrArg List.length hcut
    rw [List.length_take, hph] at hlen
    exact hne ((List.take_of_length_le (by omega)).symm.trans hcut)

theorem CountsCycles.of_sameCounter {st st' : SupplierState} {count : Nat}
    (h : CountsCycles ourPh st count) (hsame : SameCounter st st') :
    CountsCycles ourPh st' count := by
  refine ⟨fun hzero => ?_, fun hpos => ?_⟩
  · rw [hsame.crPrev]
    exact h.fresh hzero
  · rw [hsame.crPrev, hsame.crCycle]
    exact h.counted hpos

variable {tag : List UInt8}

theorem stateAfter_append (before : List CycleInput) (input : CycleInput) :
    stateAfter cfg blake2b sorter tag (before ++ [input]) =
      (outcomeOf cfg blake2b sorter tag before input).1 := by
  unfold stateAfter outcomeOf
  rw [List.foldl_append]
  rfl

/-- In every run the statics have counted the cycles at the hash. -/
theorem countsCycles_stateAfter (hph : ourPh.length = 64) (before : List CycleInput) :
    CountsCycles ourPh (stateAfter cfg blake2b sorter tag before)
      (earlierCycles cfg ourPh before) := by
  induction before using List.reverseRecOn with
  | nil =>
    refine ⟨fun _ hnil => ?_, fun h => absurd h (Nat.lt_irrefl 0)⟩
    rw [← hnil] at hph
    cases hph
  | append_singleton before input ih =>
    rw [stateAfter_append, earlierCycles_append]
    unfold outcomeOf
    cases hhash : cycleHash cfg input with
    | none => exact ih.of_sameCounter (sameCounter_of_cycleHash_none hhash _)
    | some ph =>
      refine CountsCycles.of_sameCounter ?_
        (sameCounter_of_rotates (cycleHash_eq_some_iff.mp hhash) _)
      dsimp only
      by_cases heq : ph = ourPh
      · subst heq
        rw [if_pos rfl]
        exact (countsCycles_advance hph (ih.of_sameCounter (sameCounter_activate _))).1
      · rw [if_neg heq]
        exact countsCycles_advance_of_ne hph heq _

end Counter

/-! ## One round -/

section Round

variable (cfg : TemplateConfig) (ourPh : List UInt8) (blake2b : List UInt8 → Hash32)
  (sorter : Qsort.Sorter (List UInt8)) (tag : List UInt8) (height : UInt64)
  (members : List (List UInt8))

/-- A cycle at this hash and height, over these suppliers. -/
structure InRound (input : CycleInput) : Prop where
  rotates : Rotates cfg ourPh input.resVal
  height_eq : jsonU64 (input.resVal.objectGet "height") = height
  listed : ∃ listing, input.files.listing = some listing ∧
    (freshAddresses cfg ourPh listing).Perm members

/-- The supplier a cycle scheduled, served or not. -/
def scheduledIn (outcome : SupplierState × Json) : List UInt8 :=
  outcome.1.rot.set.getD outcome.1.rot.idx.toNat []

/-- The file of an address loads, and its transactions are taken. -/
def TakesOver (input : CycleInput) (address : List UInt8) : Prop :=
  ∃ sup, input.files.reload address = some sup ∧
    (swapFrom input.resVal sup (some ourPh)).1 = true

/-- The start of the round. -/
def roundStart : Nat :=
  carouselStart cfg ourPh blake2b height members.length

/-- The place that is due in a cycle. -/
def placeOf (cycle : UInt32) : Nat :=
  (roundStart cfg ourPh blake2b height members + cycle.toNat) % members.length

/-- The supplier at a place of the sorted set. -/
def supplierAt (place : Nat) : List UInt8 :=
  (sorter.sort strcmp members).getD place []

/-- What a cycle publishes of its turn. -/
structure PublishesTurn (cycle : UInt32) (outcome : SupplierState × Json) : Prop where
  cycle_eq : outcome.1.rot.cycle = cycle
  n_eq : outcome.1.rot.n = members.length
  start_eq : outcome.1.rot.start = roundStart cfg ourPh blake2b height members
  idx_eq : outcome.1.rot.idx =
    ((outcome.1.rot.start + outcome.1.rot.cycle.toNat) % outcome.1.rot.n : Nat)
  scheduled_eq : scheduledIn outcome =
    supplierAt sorter members (placeOf cfg ourPh blake2b height members cycle)

/-- A cycle that fails leaves no supplier, the others the scheduled one. -/
structure ServesTurn (cycle : UInt32) (input : CycleInput) (outcome : SupplierState × Json) : Prop
    extends PublishesTurn cfg ourPh blake2b sorter height members cycle outcome where
  failing : ¬ TakesOver ourPh input (scheduledIn outcome) →
    outcome.1.rot.failed = true ∧ outcome.1.rot.pick = [] ∧ outcome.1.carouselSupplier = [] ∧
      outcome.1.carouselSupplierName = [] ∧ outcome.2 = input.resVal
  serving : TakesOver ourPh input (scheduledIn outcome) →
    outcome.1.rot.failed = false ∧ outcome.1.rot.pick = scheduledIn outcome ∧
      outcome.1.carouselSupplier = scheduledIn outcome

variable {cfg ourPh blake2b sorter tag height members}

theorem length_sort_members : (sorter.sort strcmp members).length = members.length :=
  (sorter.perm _ _).length_eq

/-- The set of a cycle of the round. -/
theorem sort_collectNames_of_perm {listing : List CacheFile}
    (hperm : (freshAddresses cfg ourPh listing).Perm members)
    (hmax : members.length ≤ carouselMaxSet) :
    sorter.sort strcmp (collectNames cfg ourPh 0 listing) = sorter.sort strcmp members := by
  rw [collectNames_of_length_le cfg ourPh (hperm.length_eq.trans_le hmax)]
  exact sort_strcmp_eq_of_perm sorter hperm

variable (cfg ourPh blake2b sorter height) in
/-- The place a cycle schedules. -/
theorem publishesTurn_rotPublish (hshort : ∀ name ∈ members, name.length ≤ 127)
    {st : SupplierState} {cycle : UInt32} (hcycle : st.crCycle = cycle) (failed : Bool)
    (pick setHash : List UInt8) (resVal : Json) :
    PublishesTurn cfg ourPh blake2b sorter height members cycle
      (rotPublish ourPh st height (roundStart cfg ourPh blake2b height members)
        (placeOf cfg ourPh blake2b height members cycle) failed pick setHash
        (sorter.sort strcmp members), resVal) := by
  subst hcycle
  have hle : ∀ name ∈ sorter.sort strcmp members, name.length ≤ 127 :=
    fun name hname => hshort name ((sorter.perm _ _).mem_iff.mp hname)
  refine ⟨rfl, length_sort_members, rfl, ?_, ?_⟩
  · show _ = (((_ + _) % (sorter.sort strcmp members).length : Nat) : Int)
    rw [length_sort_members]
    rfl
  · show ((sorter.sort strcmp members).map _).getD _ [] = _
    rw [map_take_of_short hle]
    rfl

/-- The supplier at a place is one of the set, or there is none. -/
theorem length_supplierAt_le (hshort : ∀ name ∈ members, name.length ≤ 127) (place : Nat) :
    (supplierAt sorter members place).length ≤ 127 := by
  unfold supplierAt
  by_cases hplace : place < (sorter.sort strcmp members).length
  · rw [List.getD_eq_getElem _ _ hplace]
    exact hshort _ ((sorter.perm _ _).mem_iff.mp (List.getElem_mem hplace))
  · rw [List.getD_eq_default _ _ (Nat.le_of_not_lt hplace)]
    exact Nat.zero_le _

theorem serveScheduled_of_not_takesOver {st : SupplierState} {input : CycleInput}
    (hheight : jsonU64 (input.resVal.objectGet "height") = height)
    (hfails : ¬ TakesOver ourPh input
      (supplierAt sorter members (placeOf cfg ourPh blake2b height members st.crCycle))) :
    serveScheduled cfg ourPh blake2b st input.files.reload input.resVal
        (sorter.sort strcmp members) =
      (rotPublish ourPh st.clearSupplier height (roundStart cfg ourPh blake2b height members)
        (placeOf cfg ourPh blake2b height members st.crCycle) true []
        (carouselSetHash blake2b (sorter.sort strcmp members)) (sorter.sort strcmp members),
        input.resVal) := by
  unfold serveScheduled
  rw [hheight, length_sort_members]
  dsimp only
  cases hload : input.files.reload (supplierAt sorter members
      (placeOf cfg ourPh blake2b height members st.crCycle)) with
  | none =>
    have hload : input.files.reload ((sorter.sort strcmp members).getD
        ((carouselStart cfg ourPh blake2b height members.length + st.crCycle.toNat) %
          members.length) []) = none := hload
    rw [hload]
    rfl
  | some sup =>
    have hrefused : (swapFrom input.resVal sup (some ourPh)).1 = false := by
      cases hswap : (swapFrom input.resVal sup (some ourPh)).1 with
      | false => rfl
      | true => exact absurd ⟨sup, hload, hswap⟩ hfails
    have hload : input.files.reload ((sorter.sort strcmp members).getD
        ((carouselStart cfg ourPh blake2b height members.length + st.crCycle.toNat) %
          members.length) []) = some sup := hload
    rw [hload]
    dsimp only
    generalize swapFrom input.resVal sup (some ourPh) = swapped at hrefused ⊢
    obtain ⟨taken, resVal'⟩ := swapped
    obtain rfl : taken = false := hrefused
    rfl

theorem serveScheduled_of_takesOver {st : SupplierState} {input : CycleInput}
    (hheight : jsonU64 (input.resVal.objectGet "height") = height)
    (htakes : TakesOver ourPh input
      (supplierAt sorter members (placeOf cfg ourPh blake2b height members st.crCycle))) :
    ∃ st' resVal', st'.crCycle = st.crCycle ∧
      st'.carouselSupplier =
        (supplierAt sorter members
          (placeOf cfg ourPh blake2b height members st.crCycle)).take 127 ∧
      serveScheduled cfg ourPh blake2b st input.files.reload input.resVal
          (sorter.sort strcmp members) =
        (rotPublish ourPh st' height (roundStart cfg ourPh blake2b height members)
          (placeOf cfg ourPh blake2b height members st.crCycle) false
          (supplierAt sorter members (placeOf cfg ourPh blake2b height members st.crCycle))
          (carouselSetHash blake2b (sorter.sort strcmp members)) (sorter.sort strcmp members),
          resVal') := by
  obtain ⟨sup, hload, htaken⟩ := htakes
  unfold serveScheduled
  rw [hheight, length_sort_members]
  dsimp only
  have hload : input.files.reload ((sorter.sort strcmp members).getD
      ((carouselStart cfg ourPh blake2b height members.length + st.crCycle.toNat) %
        members.length) []) = some sup := hload
  rw [hload]
  dsimp only
  generalize swapFrom input.resVal sup (some ourPh) = swapped at htaken ⊢
  obtain ⟨taken, resVal'⟩ := swapped
  obtain rfl : taken = true := htaken
  exact ⟨{ st with
      carouselSupplier :=
        (supplierAt sorter members (placeOf cfg ourPh blake2b height members st.crCycle)).take 127
      carouselSupplierName := supplierName sup }, resVal', rfl, rfl, rfl⟩

theorem servesTurn_serveScheduled {st : SupplierState} {input : CycleInput}
    (hheight : jsonU64 (input.resVal.objectGet "height") = height)
    (hshort : ∀ name ∈ members, name.length ≤ 127) :
    ServesTurn cfg ourPh blake2b sorter height members st.crCycle input
      (serveScheduled cfg ourPh blake2b st input.files.reload input.resVal
        (sorter.sort strcmp members)) := by
  by_cases htakes : TakesOver ourPh input
      (supplierAt sorter members (placeOf cfg ourPh blake2b height members st.crCycle))
  · obtain ⟨st', resVal', hcycle, hsupplier, hserve⟩ :=
      serveScheduled_of_takesOver hheight htakes
    rw [hserve]
    have hpublishes := publishesTurn_rotPublish cfg ourPh blake2b sorter height hshort hcycle
      false (supplierAt sorter members (placeOf cfg ourPh blake2b height members st.crCycle))
      (carouselSetHash blake2b (sorter.sort strcmp members)) resVal'
    have hwhole : (supplierAt sorter members
        (placeOf cfg ourPh blake2b height members st.crCycle)).take 127 =
          supplierAt sorter members (placeOf cfg ourPh blake2b height members st.crCycle) :=
      List.take_of_length_le (length_supplierAt_le hshort _)
    refine ⟨hpublishes, ?_, ?_⟩
    · rw [hpublishes.scheduled_eq]
      exact fun h => absurd htakes h
    · intro _
      rw [hpublishes.scheduled_eq]
      exact ⟨rfl, hwhole, hsupplier.trans hwhole⟩
  · rw [serveScheduled_of_not_takesOver hheight htakes]
    have hpublishes := publishesTurn_rotPublish cfg ourPh blake2b sorter height hshort
      (show st.clearSupplier.crCycle = st.crCycle from rfl) true []
      (carouselSetHash blake2b (sorter.sort strcmp members)) input.resVal
    refine ⟨hpublishes, fun _ => ⟨rfl, rfl, rfl, rfl, rfl⟩, ?_⟩
    rw [hpublishes.scheduled_eq]
    exact fun h => absurd h htakes

/-- In every run, a cycle of the round serves the turn that the cycles before it
    have counted. -/
theorem servesTurn_outcomeOf (hph : ourPh.length = 64) (hne : members ≠ [])
    (hmax : members.length ≤ carouselMaxSet) (before : List CycleInput) {input : CycleInput}
    (hin : InRound cfg ourPh height members input) :
    ServesTurn cfg ourPh blake2b sorter height members
      (UInt32.ofNat (earlierCycles cfg ourPh before)) input
      (outcomeOf cfg blake2b sorter tag before input) := by
  obtain ⟨listing, hlisting, hperm⟩ := hin.listed
  have hshort : ∀ name ∈ members, name.length ≤ 127 := fun name hname =>
    length_of_mem_freshAddresses cfg ourPh (hperm.mem_iff.mpr hname)
  have hcounts : CountsCycles ourPh (activate cfg (stateAfter cfg blake2b sorter tag before))
      (earlierCycles cfg ourPh before) :=
    (countsCycles_stateAfter hph before).of_sameCounter (sameCounter_activate _)
  have hnames : sorter.sort strcmp members ≠ [] := by
    intro hnil
    have hlen : (sorter.sort strcmp members).length = members.length := length_sort_members
    rw [hnil] at hlen
    exact hne (List.length_eq_zero_iff.mp hlen.symm)
  unfold outcomeOf
  rw [applySupplier_of_rotates hin.rotates, carouselCycle, hlisting]
  dsimp only
  rw [sort_collectNames_of_perm hperm hmax, ← (countsCycles_advance hph hcounts).2]
  cases hsorted : sorter.sort strcmp members with
  | nil => exact absurd hsorted hnames
  | cons name rest =>
    rw [rotateOver, ← hsorted]
    exact servesTurn_serveScheduled hin.height_eq hshort

variable (cfg blake2b sorter tag) in
/-- How the cycles of a run end that follow others. -/
def outcomes : (before : List CycleInput) → List CycleInput → List (SupplierState × Json)
  | _, [] => []
  | before, input :: rest =>
    outcomeOf cfg blake2b sorter tag before input :: outcomes (before ++ [input]) rest

theorem getElem?_outcomes (before window : List CycleInput) (j : Nat) :
    (outcomes cfg blake2b sorter tag before window)[j]? =
      window[j]?.map (outcomeOf cfg blake2b sorter tag (before ++ window.take j)) := by
  induction window generalizing before j with
  | nil => rfl
  | cons input rest ih =>
    cases j with
    | zero =>
      rw [List.take_zero, List.append_nil]
      rfl
    | succ j =>
      rw [outcomes, List.getElem?_cons_succ, List.getElem?_cons_succ, ih, List.take_succ_cons,
        List.append_assoc, List.singleton_append]

/-- Every cycle of the round counts. -/
theorem earlierCycles_take {window : List CycleInput}
    (hround : ∀ input ∈ window, InRound cfg ourPh height members input)
    (before : List CycleInput) {j : Nat} (hj : j ≤ window.length) :
    earlierCycles cfg ourPh (before ++ window.take j) = earlierCycles cfg ourPh before + j := by
  induction j with
  | zero => rw [List.take_zero, List.append_nil, Nat.add_zero]
  | succ j ih =>
    have hlt : j < window.length := hj
    have hhash : cycleHash cfg window[j] = some ourPh :=
      cycleHash_eq_some_iff.mpr (hround _ (List.getElem_mem hlt)).rotates
    rw [List.take_succ_eq_append_getElem hlt, ← List.append_assoc, earlierCycles_append, hhash]
    dsimp only
    rw [if_pos rfl, ih (Nat.le_of_lt hlt)]
    rfl

variable (cfg ourPh blake2b sorter tag height members)

/-- The cycles of a round take turns. -/
structure RoundRobin (before window : List CycleInput) : Prop where
  serves : ∀ (j : Nat) input outcome, window[j]? = some input →
    (outcomes cfg blake2b sorter tag before window)[j]? = some outcome →
      ServesTurn cfg ourPh blake2b sorter height members outcome.1.rot.cycle input outcome
  counted : ∀ (j : Nat) outcome,
    (outcomes cfg blake2b sorter tag before window)[j]? = some outcome →
      outcome.1.rot.cycle.toNat = earlierCycles cfg ourPh before + j
  onceEach : ∀ first, first + members.length ≤ window.length → ∀ supplier ∈ members,
    ∃! turn, turn < members.length ∧
      (outcomes cfg blake2b sorter tag before window)[first + turn]?.map scheduledIn =
        some supplier

variable {cfg ourPh blake2b sorter tag height members}

variable (cfg blake2b sorter tag) in
theorem outcome_of_window {before window : List CycleInput} {j : Nat}
    (hph : ourPh.length = 64) (hne : members ≠ []) (hmax : members.length ≤ carouselMaxSet)
    (hround : ∀ input ∈ window, InRound cfg ourPh height members input)
    (hj : j < window.length) :
    ∃ outcome, (outcomes cfg blake2b sorter tag before window)[j]? = some outcome ∧
      ServesTurn cfg ourPh blake2b sorter height members
        (UInt32.ofNat (earlierCycles cfg ourPh before + j)) window[j] outcome := by
  refine ⟨outcomeOf cfg blake2b sorter tag (before ++ window.take j) window[j], ?_, ?_⟩
  · rw [getElem?_outcomes, List.getElem?_eq_getElem hj]
    rfl
  · rw [← earlierCycles_take hround before (Nat.le_of_lt hj)]
    exact servesTurn_outcomeOf hph hne hmax _ (hround _ (List.getElem_mem hj))

theorem outcome_number_lt {before window : List CycleInput} {j : Nat} (hph : ourPh.length = 64)
    (hne : members ≠ []) (hmax : members.length ≤ carouselMaxSet)
    (hround : ∀ input ∈ window, InRound cfg ourPh height members input)
    (hrobin : RoundRobin cfg ourPh blake2b sorter tag height members before window)
    (hj : j < window.length) : earlierCycles cfg ourPh before + j < 2 ^ 32 := by
  obtain ⟨outcome, houtcome, _⟩ := outcome_of_window cfg blake2b sorter tag
    hph hne hmax hround hj
  rw [← hrobin.counted j outcome houtcome]
  exact outcome.1.rot.cycle.toNat_lt

variable (sorter) in
/-- Every supplier of the set has a place. -/
theorem exists_supplierAt {supplier : List UInt8} (hmem : supplier ∈ members) :
    ∃ place < members.length, supplierAt sorter members place = supplier := by
  have hsorted : supplier ∈ sorter.sort strcmp members := (sorter.perm _ _).mem_iff.mpr hmem
  obtain ⟨place, hplace, hfound⟩ := List.getElem_of_mem hsorted
  refine ⟨place, hplace.trans_eq length_sort_members, ?_⟩
  rw [supplierAt, List.getD_eq_getElem _ _ hplace, hfound]

theorem supplierAt_inj (hnodup : members.Nodup) {place other : Nat}
    (hplace : place < members.length) (hother : other < members.length)
    (hsame : supplierAt sorter members place = supplierAt sorter members other) :
    place = other := by
  have hsorted : (sorter.sort strcmp members).Nodup := (sorter.perm _ _).nodup_iff.mpr hnodup
  have hlen : (sorter.sort strcmp members).length = members.length := length_sort_members
  rw [supplierAt, supplierAt, List.getD_eq_getElem _ _ (hplace.trans_eq hlen.symm),
    List.getD_eq_getElem _ _ (hother.trans_eq hlen.symm)] at hsame
  exact (hsorted.getElem_inj_iff).mp hsame

/-- The cycles of a round take turns, whatever fails in between, as long as fewer
    than 2³² cycles have gone by at the hash before each of them. -/
theorem roundRobin_iff {before window : List CycleInput} (hph : ourPh.length = 64)
    (hne : members ≠ []) (hnodup : members.Nodup) (hmax : members.length ≤ carouselMaxSet)
    (hround : ∀ input ∈ window, InRound cfg ourPh height members input) :
    RoundRobin cfg ourPh blake2b sorter tag height members before window ↔
      ∀ j < window.length, earlierCycles cfg ourPh before + j < 2 ^ 32 := by
  have houtcome (j : Nat) (hj : j < window.length) :
      ∃ outcome, (outcomes cfg blake2b sorter tag before window)[j]? = some outcome ∧
        ServesTurn cfg ourPh blake2b sorter height members
          (UInt32.ofNat (earlierCycles cfg ourPh before + j)) window[j] outcome :=
    outcome_of_window cfg blake2b sorter tag hph hne hmax hround hj
  have hlength : ∀ j outcome,
      (outcomes cfg blake2b sorter tag before window)[j]? = some outcome →
      j < window.length := by
    intro j outcome hfound
    rw [getElem?_outcomes] at hfound
    obtain ⟨input, hinput, _⟩ := Option.map_eq_some_iff.mp hfound
    exact (List.getElem?_eq_some_iff.mp hinput).1
  constructor
  · intro hrobin j hj
    exact outcome_number_lt hph hne hmax hround hrobin hj
  · intro hcount
    refine ⟨?_, ?_, ?_⟩
    · intro j input outcome hinput hfound
      have hj := hlength j outcome hfound
      obtain ⟨served, hserved, hturn⟩ := houtcome j hj
      obtain rfl : served = outcome := Option.some.inj (hserved.symm.trans hfound)
      obtain ⟨_, rfl⟩ := List.getElem?_eq_some_iff.mp hinput
      rw [hturn.cycle_eq]
      exact hturn
    · intro j outcome hfound
      have hj := hlength j outcome hfound
      obtain ⟨served, hserved, hturn⟩ := houtcome j hj
      obtain rfl : served = outcome := Option.some.inj (hserved.symm.trans hfound)
      rw [hturn.cycle_eq, UInt32.toNat_ofNat_of_lt' (hcount j hj)]
    · intro first hroom supplier hsupplier
      obtain ⟨place, hplace, hat⟩ := exists_supplierAt sorter hsupplier
      -- what is due at a turn of these, by its place
      have hdue : ∀ turn < members.length,
          (outcomes cfg blake2b sorter tag before window)[first + turn]?.map scheduledIn =
            some (supplierAt sorter members ((roundStart cfg ourPh blake2b height members +
              (earlierCycles cfg ourPh before + first) + turn) % members.length)) := by
        intro turn hturn
        have hj : first + turn < window.length := by omega
        obtain ⟨served, hserved, hserves⟩ := houtcome (first + turn) hj
        rw [hserved, Option.map_some, hserves.scheduled_eq, placeOf,
          UInt32.toNat_ofNat_of_lt' (hcount _ hj), ← Nat.add_assoc, ← Nat.add_assoc,
          ← Nat.add_assoc]
      obtain ⟨turn, ⟨hturn, hserved⟩, honly⟩ := RoundRobin.existsUnique_mod_eq
        (roundStart cfg ourPh blake2b height members + (earlierCycles cfg ourPh before + first))
        hplace
      refine ⟨turn, ⟨hturn, ?_⟩, ?_⟩
      · rw [hdue turn hturn, hserved, hat]
      · rintro other ⟨hother, hsame⟩
        rw [hdue other hother, ← hat] at hsame
        exact honly other ⟨hother, supplierAt_inj hnodup
          (Nat.mod_lt _ (Nat.zero_lt_of_lt hplace)) hplace (Option.some.inj hsame)⟩

end Round

/-! ## A count that wraps -/

/-- A cycle over three suppliers. -/
def threeInput : CycleInput where
  files := { numberedFiles with listing := some ((List.range 3).map numberedFile) }
  resVal := tipReply

/-- Their addresses. -/
def threeMembers : List (List UInt8) :=
  (List.range 3).map fun i => Hex.encode (Wire.leBytes 2 i)

theorem inRound_threeInput : InRound openCarousel tipHash 900000 threeMembers threeInput where
  rotates := rotates_openCarousel
  height_eq := by decide
  listed := by
    refine ⟨_, rfl, List.Perm.of_eq ?_⟩
    have haddress : freshAddress openCarousel tipHash ∘ numberedFile =
        fun i => some (Hex.encode (Wire.leBytes 2 i)) :=
      funext fun i => freshAddress_numberedFile i
    rw [freshAddresses, List.filterMap_map, haddress]
    exact List.filterMap_eq_map' (f := fun i => Hex.encode (Wire.leBytes 2 i)) ▸ rfl

theorem earlierCycles_replicate (count : Nat) :
    earlierCycles openCarousel tipHash (List.replicate count threeInput) = count := by
  have hhash : cycleHash openCarousel threeInput = some tipHash :=
    cycleHash_eq_some_iff.mpr rotates_openCarousel
  induction count with
  | zero => rfl
  | succ count ih =>
    rw [List.replicate_succ', earlierCycles_append, hhash]
    dsimp only
    rw [if_pos rfl, ih]

/-- The first round after a block. -/
theorem roundRobin_three : RoundRobin openCarousel tipHash (fun _ => uniformHash 0)
    (Qsort.insertionSorter _) [] 900000 threeMembers [] (List.replicate 3 threeInput) :=
  (roundRobin_iff (by decide) (by decide) (by decide) (by decide)
    fun _ hmem => List.eq_of_mem_replicate hmem ▸ inRound_threeInput).mpr (by decide)

/-- After 2³² - 1 cycles at a hash the next one begins at zero again, out of turn. -/
theorem not_roundRobin_wrapped : ¬ RoundRobin openCarousel tipHash (fun _ => uniformHash 0)
    (Qsort.insertionSorter _) [] 900000 threeMembers (List.replicate (2 ^ 32 - 1) threeInput)
    (List.replicate 3 threeInput) := by
  intro hrobin
  have hround : ∀ input ∈ List.replicate 3 threeInput,
      InRound openCarousel tipHash 900000 threeMembers input :=
    fun _ hmem => List.eq_of_mem_replicate hmem ▸ inRound_threeInput
  have hnumber := outcome_number_lt (by decide) (by decide) (by decide) hround hrobin
    (show 1 < (List.replicate 3 threeInput).length by decide)
  rw [earlierCycles_replicate] at hnumber
  exact absurd hnumber (by decide)

end ChirpGateway
