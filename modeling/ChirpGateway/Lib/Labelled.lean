import Mathlib.Data.List.Nodup

/-!
# Selecting from a list of distinct labels

A selection that keeps the label of what it selects can be read back entry by
entry when no label occurs twice.
-/

namespace Labelled

universe u v w

variable {α : Type u} {β : Type v} {γ : Type w} {label : α → γ} {read : β → γ}

/-- The selection leaves the label of an entry readable. -/
def Keeps (label : α → γ) (read : β → γ) (f : α → Option β) : Prop :=
  ∀ x y, f x = some y → read y = label x

/-- With distinct labels the result says of each entry what was selected. -/
theorem eq_some_iff_mem_filterMap {f : α → Option β} (hf : Keeps label read f) {xs : List α}
    (hnodup : (xs.map label).Nodup) {x : α} (hx : x ∈ xs) (y : β) :
    f x = some y ↔ y ∈ xs.filterMap f ∧ read y = label x := by
  constructor
  · intro hy
    exact ⟨List.mem_filterMap.mpr ⟨x, hx, hy⟩, hf x y hy⟩
  · rintro ⟨hmem, hread⟩
    obtain ⟨x', hx', hy⟩ := List.mem_filterMap.mp hmem
    have hlabel : label x' = label x := (hf x' y hy).symm.trans hread
    rwa [← List.inj_on_of_nodup_map hnodup hx' hx hlabel]

/-- Two selections, one of a list and one of the same list with more entries
    behind it, agree exactly when they agree on every shared entry and the
    second takes nothing of the rest. -/
theorem filterMap_eq_append_iff {f g : α → Option β} (hf : Keeps label read f)
    (hg : Keeps label read g) {xs ys : List α} (hnodup : ((xs ++ ys).map label).Nodup) :
    xs.filterMap f = (xs ++ ys).filterMap g ↔
      (∀ x ∈ xs, f x = g x) ∧ ∀ y ∈ ys, g y = none := by
  have hxs : (xs.map label).Nodup := hnodup.sublist ((List.sublist_append_left xs ys).map label)
  constructor
  · intro heq
    refine ⟨?_, ?_⟩
    · intro x hx
      apply Option.ext
      intro y
      rw [eq_some_iff_mem_filterMap hf hxs hx, heq,
        ← eq_some_iff_mem_filterMap hg hnodup (List.mem_append_left _ hx)]
    · intro y hy
      apply Option.eq_none_iff_forall_ne_some.mpr
      intro z hz
      have hmem : z ∈ xs.filterMap f := by
        rw [heq]
        exact List.mem_filterMap.mpr ⟨y, List.mem_append_right _ hy, hz⟩
      obtain ⟨x, hx, hfx⟩ := List.mem_filterMap.mp hmem
      have hlabel : label x = label y := (hf x z hfx).symm.trans (hg y z hz)
      rw [List.map_append] at hnodup
      exact (List.nodup_append.mp hnodup).2.2 _ (List.mem_map_of_mem hx) _
        (List.mem_map_of_mem hy) hlabel
  · rintro ⟨hshared, hrest⟩
    rw [List.filterMap_append, List.filterMap_eq_nil_iff.mpr hrest, List.append_nil]
    exact List.filterMap_congr hshared

end Labelled
