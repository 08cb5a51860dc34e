import Mathlib.Data.List.Basic
import Mathlib.Data.List.Nodup
import Mathlib.Logic.Function.Basic
import Mathlib.Order.Basic

/-!
# Chains through a table of slots

Singly linked lists whose cells are the slots of one table, a list for every
class of slots, each in the order of a rank. A slot is looked for along its chain
and linked in where its rank belongs.
-/

namespace SlotChain

variable {S : Type}

/-- From `head` on, the slots are linked in this order, and the last one ends the
    chain. -/
def Linked (next : S → Option S) : Option S → List S → Prop
  | head, [] => head = none
  | head, slot :: slots => head = some slot ∧ Linked next (next slot) slots

section Linked

variable {next next' : S → Option S} {head : Option S} {slots : List S}

theorem linked_congr (hnext : ∀ slot ∈ slots, next' slot = next slot) :
    Linked next' head slots ↔ Linked next head slots := by
  induction slots generalizing head with
  | nil => exact Iff.rfl
  | cons slot slots ih =>
    rw [List.forall_mem_cons] at hnext
    rw [Linked, Linked, hnext.1, ih hnext.2]

/-- A head has one chain. -/
theorem Linked.unique {others : List S} (h : Linked next head slots)
    (hothers : Linked next head others) : slots = others := by
  induction slots generalizing head others with
  | nil =>
    cases others with
    | nil => rfl
    | cons other others => cases h.symm.trans hothers.1
  | cons slot slots ih =>
    cases others with
    | nil => cases hothers.symm.trans h.1
    | cons other others =>
      obtain rfl : slot = other := Option.some.inj (h.1.symm.trans hothers.1)
      rw [ih h.2 hothers.2]

/-- The rest of a chain is the chain of its first slot. -/
theorem Linked.drop_front {front back : List S} {slot : S}
    (h : Linked next head (front ++ slot :: back)) : Linked next (some slot) (slot :: back) := by
  induction front generalizing head with
  | nil => exact ⟨rfl, h.2⟩
  | cons first front ih => exact ih h.2

/-- No chain that ends meets a slot twice. -/
theorem Linked.nodup (h : Linked next head slots) : slots.Nodup := by
  induction slots generalizing head with
  | nil => exact List.nodup_nil
  | cons slot slots ih =>
    refine List.nodup_cons.mpr ⟨fun hmem => ?_, ih h.2⟩
    obtain ⟨front, back, rfl⟩ := List.append_of_mem hmem
    have hself : Linked next (some slot) (slot :: (front ++ slot :: back)) := ⟨rfl, h.2⟩
    have hsame := (Linked.drop_front h.2).unique hself
    have hlen := congrArg List.length hsame
    simp only [List.length_cons, List.length_append] at hlen
    omega

theorem Linked.next_eq {front back : List S} {slot : S}
    (h : Linked next head (front ++ slot :: back)) : next slot = back.head? := by
  have hback := (Linked.drop_front h).2
  cases back with
  | nil => exact hback
  | cons later back => exact hback.1

/-- A new first slot. -/
theorem Linked.push [DecidableEq S] {slot : S} (h : Linked next head slots)
    (hslot : slot ∉ slots) :
    Linked (Function.update next slot head) (some slot) (slot :: slots) := by
  refine ⟨rfl, ?_⟩
  rw [Function.update_self]
  refine (linked_congr fun other hother => ?_).mpr h
  exact Function.update_of_ne (ne_of_mem_of_not_mem hother hslot) _ _

/-- A new slot behind `prev`. -/
theorem Linked.insertAfter [DecidableEq S] {front back : List S} {prev slot : S}
    (h : Linked next head (front ++ prev :: back)) (hslot : slot ∉ front ++ prev :: back) :
    Linked (Function.update (Function.update next slot (next prev)) prev (some slot)) head
      (front ++ prev :: slot :: back) := by
  have hprev : prev ≠ slot :=
    fun heq => hslot (heq ▸ List.mem_append_right _ List.mem_cons_self)
  have hother : ∀ other, other ≠ prev → other ≠ slot →
      Function.update (Function.update next slot (next prev)) prev (some slot) other =
        next other := by
    intro other hne hne'
    rw [Function.update_of_ne hne, Function.update_of_ne hne']
  induction front generalizing head with
  | nil =>
    have hnodup := List.nodup_cons.mp h.nodup
    refine ⟨h.1, ?_⟩
    rw [Function.update_self]
    refine ⟨rfl, ?_⟩
    rw [Function.update_of_ne hprev.symm, Function.update_self]
    refine (linked_congr fun other hmem => ?_).mpr h.2
    exact hother other (ne_of_mem_of_not_mem hmem hnodup.1)
      (ne_of_mem_of_not_mem (List.mem_cons_of_mem _ hmem) hslot)
  | cons first front ih =>
    have hnodup := List.nodup_cons.mp h.nodup
    refine ⟨h.1, ?_⟩
    rw [hother first]
    · exact ih h.2 fun hmem => hslot (List.mem_cons_of_mem _ hmem)
    · rintro rfl
      exact hnodup.1 (List.mem_append_right _ List.mem_cons_self)
    · rintro rfl
      exact hslot List.mem_cons_self

end Linked

/-! ## Looking along a chain -/

/-- Where a search ends. -/
inductive Place (S : Type) where
  | found
  /-- in front of the slot, behind the one before it -/
  | before (prev : Option S) (slot : S)
  | last (prev : S)
  deriving DecidableEq

/-- The search for the same slot, or else for the place in front of the first one
    above. -/
def seek (next : S → Option S) (above same : S → Bool) :
    (fuel : Nat) → (prev : Option S) → S → Option (Place S)
  | 0, _, _ => none
  | fuel + 1, prev, slot =>
    if above slot then some (.before prev slot)
    else if same slot then some .found
    else
      match next slot with
      | none => some (.last slot)
      | some later => seek next above same fuel (some slot) later

/-- What a search along a chain tells about it. -/
def Place.Fits (above same : S → Bool) (slots : List S) : Place S → Prop
  | .found => ∃ slot ∈ slots, same slot = true
  | .before none slot => ∃ back, slots = slot :: back ∧ above slot = true
  | .before (some prev) slot => ∃ front back, slots = front ++ prev :: slot :: back ∧
      (∀ other ∈ front ++ [prev], above other = false ∧ same other = false) ∧
        above slot = true
  | .last prev => ∃ front, slots = front ++ [prev] ∧
      ∀ other ∈ front ++ [prev], above other = false ∧ same other = false

/-- A search that has come to `slot` behind `front` ends at a place that fits. -/
theorem exists_seek_from {next : S → Option S} {above same : S → Bool} {fuel : Nat}
    {front back : List S} {slot : S}
    (hfront : ∀ other ∈ front, above other = false ∧ same other = false)
    (h : Linked next (some slot) (slot :: back)) (hfuel : back.length < fuel) :
    ∃ place, seek next above same fuel front.getLast? slot = some place ∧
      place.Fits above same (front ++ slot :: back) := by
  induction fuel generalizing front back slot with
  | zero => exact absurd hfuel (Nat.not_lt_zero _)
  | succ fuel ih =>
    rw [seek]
    by_cases habove : above slot = true
    · refine ⟨_, if_pos habove, ?_⟩
      rcases List.eq_nil_or_concat front with rfl | ⟨front, prev, rfl⟩
      · exact ⟨back, rfl, habove⟩
      · rw [List.concat_eq_append] at hfront
        rw [List.concat_eq_append, List.getLast?_append_of_ne_nil _ (List.cons_ne_nil _ _)]
        exact ⟨front, back, by simp, hfront, habove⟩
    · rw [if_neg habove]
      rw [Bool.not_eq_true] at habove
      by_cases hsame : same slot = true
      · exact ⟨_, if_pos hsame, slot, by simp, hsame⟩
      · rw [if_neg hsame]
        rw [Bool.not_eq_true] at hsame
        have hfront' : ∀ other ∈ front ++ [slot], above other = false ∧
            same other = false := by
          intro other hother
          rcases List.mem_append.mp hother with hmem | hmem
          · exact hfront other hmem
          · rw [List.mem_singleton.mp hmem]
            exact ⟨habove, hsame⟩
        cases back with
        | nil =>
          have hnext : next slot = none := h.2
          rw [hnext]
          exact ⟨_, rfl, front, rfl, hfront'⟩
        | cons later back =>
          have hnext : next slot = some later := h.2.1
          rw [hnext]
          have hlast : (front ++ [slot]).getLast? = some slot := by simp
          have hlen : back.length < fuel := Nat.lt_of_succ_lt_succ hfuel
          obtain ⟨place, hplace, hfits⟩ := ih hfront' (hnext ▸ h.2) hlen
          rw [hlast] at hplace
          rw [List.append_assoc] at hfits
          exact ⟨place, hplace, hfits⟩

/-- Enough fuel for the chain is enough for the search. -/
theorem exists_seek {next : S → Option S} (above same : S → Bool) {fuel : Nat} {head : S}
    {slots : List S} (h : Linked next (some head) slots) (hfuel : slots.length ≤ fuel) :
    ∃ place, seek next above same fuel none head = some place ∧
      place.Fits above same slots := by
  cases slots with
  | nil => cases h
  | cons slot back =>
    obtain rfl : head = slot := Option.some.inj h.1
    have hnone : ∀ other ∈ ([] : List S), above other = false ∧ same other = false :=
      fun other hother => absurd hother List.not_mem_nil
    exact exists_seek_from hnone h hfuel

/-! ## A chain for every class -/

section Filed

variable {K R : Type} [LE R] {index : K → Option S} {next : S → Option S}
variable {kind : S → K} {rank : S → R} {held : S → Prop}

/-- Every held slot is in the chain of its class, once and by its rank. -/
def Filed (index : K → Option S) (next : S → Option S) (kind : S → K) (rank : S → R)
    (held : S → Prop) : Prop :=
  ∀ k, ∃ slots, Linked next (index k) slots ∧
    slots.Pairwise (fun slot other => rank slot ≤ rank other) ∧
    ∀ slot, slot ∈ slots ↔ held slot ∧ kind slot = k

theorem filed_empty (next : S → Option S) (kind : S → K) (rank : S → R) :
    Filed (fun _ => none) next kind rank fun _ => False := by
  intro k
  refine ⟨[], rfl, List.Pairwise.nil, fun slot => ?_⟩
  simp

/-- Only what is held is looked at. -/
theorem Filed.congr {next' : S → Option S} {kind' : S → K} {rank' : S → R}
    {held' : S → Prop}
    (h : Filed index next kind rank held) (hheld : ∀ slot, held' slot ↔ held slot)
    (hnext : ∀ slot, held slot → next' slot = next slot)
    (hkind : ∀ slot, held slot → kind' slot = kind slot)
    (hrank : ∀ slot, held slot → rank' slot = rank slot) :
    Filed index next' kind' rank' held' := by
  intro k
  obtain ⟨slots, hlinked, hsorted, hmem⟩ := h k
  have hslots : ∀ slot ∈ slots, held slot := fun slot hslot => ((hmem slot).mp hslot).1
  refine ⟨slots, (linked_congr fun slot hslot => hnext slot (hslots slot hslot)).mpr hlinked,
    ?_, ?_⟩
  · refine hsorted.imp_of_mem fun hslot hother hle => ?_
    rw [hrank _ (hslots _ hslot), hrank _ (hslots _ hother)]
    exact hle
  · intro slot
    rw [hmem, hheld]
    constructor
    · rintro ⟨hslot, hk⟩
      exact ⟨hslot, (hkind slot hslot).trans hk⟩
    · rintro ⟨hslot, hk⟩
      exact ⟨hslot, (hkind slot hslot).symm.trans hk⟩

variable [DecidableEq K]

/-- A slot that is linked into the chain of its class by its rank. -/
theorem Filed.insert {next' : S → Option S} {head : Option S} {slot : S} {front back : List S}
    (h : Filed index next kind rank held) (hslot : ¬ held slot)
    (hold : Linked next (index (kind slot)) (front ++ back))
    (hnew : Linked next' head (front ++ slot :: back))
    (hothers : ∀ other, other ∉ front ++ slot :: back → next' other = next other)
    (hfront : ∀ other ∈ front, rank other ≤ rank slot)
    (hback : ∀ other ∈ back, rank slot ≤ rank other) :
    Filed (Function.update index (kind slot) head) next' kind rank
      fun other => other = slot ∨ held other := by
  intro k
  obtain ⟨slots, hlinked, hsorted, hmem⟩ := h k
  by_cases hk : k = kind slot
  · subst hk
    obtain rfl : slots = front ++ back := hlinked.unique hold
    refine ⟨front ++ slot :: back, ?_, ?_, fun other => ?_⟩
    · rw [Function.update_self]
      exact hnew
    · obtain ⟨hfronts, hbacks, hacross⟩ := List.pairwise_append.mp hsorted
      refine List.pairwise_append.mpr ⟨hfronts, List.pairwise_cons.mpr ⟨hback, hbacks⟩, ?_⟩
      intro other hother later hlater
      rcases List.mem_cons.mp hlater with rfl | hlater
      · exact hfront other hother
      · exact hacross other hother later hlater
    · have hinsert : other ∈ front ++ slot :: back ↔
        other = slot ∨ other ∈ front ++ back := by
        simp only [List.mem_append, List.mem_cons]
        tauto
      rw [hinsert, hmem]
      constructor
      · rintro (rfl | ⟨hheld, hkind⟩)
        · exact ⟨Or.inl rfl, rfl⟩
        · exact ⟨Or.inr hheld, hkind⟩
      · rintro ⟨rfl | hheld, hkind⟩
        · exact Or.inl rfl
        · exact Or.inr ⟨hheld, hkind⟩
  · have hapart : ∀ other ∈ slots, other ∉ front ++ slot :: back := by
      intro other hother hin
      obtain ⟨hheld, hkind⟩ := (hmem other).mp hother
      obtain ⟨slots', hlinked', -, hmem'⟩ := h (kind slot)
      obtain rfl : slots' = front ++ back := hlinked'.unique hold
      have hcases : other = slot ∨ other ∈ front ++ back := by
        simp only [List.mem_append, List.mem_cons] at hin ⊢
        tauto
      rcases hcases with rfl | hin
      · exact hslot hheld
      · exact hk (hkind.symm.trans ((hmem' other).mp hin).2)
    refine ⟨slots, ?_, hsorted, fun other => ?_⟩
    · rw [Function.update_of_ne hk]
      exact (linked_congr fun other hother => hothers other (hapart other hother)).mpr hlinked
    · rw [hmem]
      constructor
      · rintro ⟨hheld, hkind⟩
        exact ⟨Or.inr hheld, hkind⟩
      · rintro ⟨rfl | hheld, hkind⟩
        · exact absurd hkind.symm hk
        · exact ⟨hheld, hkind⟩

variable [DecidableEq S]

/-- A new slot in front of its chain. -/
theorem Filed.push {slot : S} {slots : List S} (h : Filed index next kind rank held)
    (hslot : ¬ held slot) (hlinked : Linked next (index (kind slot)) slots)
    (hrank : ∀ other ∈ slots, rank slot ≤ rank other) :
    Filed (Function.update index (kind slot) (some slot))
      (Function.update next slot (index (kind slot))) kind rank
      fun other => other = slot ∨ held other := by
  obtain ⟨slots', hlinked', -, hmem⟩ := h (kind slot)
  obtain rfl : slots' = slots := hlinked'.unique hlinked
  have hnot : slot ∉ slots' := fun hin => hslot ((hmem slot).mp hin).1
  have hold : Linked next (index (kind slot)) ([] ++ slots') := hlinked
  have hnew : Linked (Function.update next slot (index (kind slot))) (some slot)
      ([] ++ slot :: slots') := hlinked.push hnot
  refine h.insert hslot hold hnew ?_ ?_ hrank
  · intro other hother
    rw [Function.update_of_ne]
    rintro rfl
    exact hother List.mem_cons_self
  · intro other hother
    cases hother

/-- A new slot behind another one of its chain. -/
theorem Filed.insertAfter {slot prev : S} {front back : List S}
    (h : Filed index next kind rank held) (hslot : ¬ held slot)
    (hlinked : Linked next (index (kind slot)) (front ++ prev :: back))
    (hfront : ∀ other ∈ front ++ [prev], rank other ≤ rank slot)
    (hback : ∀ other ∈ back, rank slot ≤ rank other) :
    Filed index (Function.update (Function.update next slot (next prev)) prev (some slot)) kind
      rank fun other => other = slot ∨ held other := by
  obtain ⟨slots, hlinked', -, hmem⟩ := h (kind slot)
  obtain rfl : slots = front ++ prev :: back := hlinked'.unique hlinked
  have hnot : slot ∉ front ++ prev :: back := fun hin => hslot ((hmem slot).mp hin).1
  have hold : Linked next (index (kind slot)) ((front ++ [prev]) ++ back) := by
    rw [List.append_assoc]
    exact hlinked
  have hnew : Linked (Function.update (Function.update next slot (next prev)) prev (some slot))
      (index (kind slot)) ((front ++ [prev]) ++ slot :: back) := by
    rw [List.append_assoc]
    exact hlinked.insertAfter hnot
  have hothers : ∀ other, other ∉ (front ++ [prev]) ++ slot :: back →
      Function.update (Function.update next slot (next prev)) prev (some slot) other =
        next other := by
    intro other hother
    rw [Function.update_of_ne, Function.update_of_ne]
    · rintro rfl
      exact hother (List.mem_append_right _ List.mem_cons_self)
    · rintro rfl
      exact hother (List.mem_append_left _ (List.mem_append_right _ List.mem_cons_self))
  have hinsert := h.insert hslot hold hnew hothers hfront hback
  rwa [Function.update_eq_self] at hinsert

end Filed

end SlotChain
