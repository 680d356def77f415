import Mathlib

/-!
# Partitions

A family of sets is a partition of a set when none of them is empty, they are disjoint, and they
make up the set.

* `IsPartition` : the notion;
* `IsPartition.of_fibers` : the sets of the elements that a function maps to the same index;
* `IsPartition.of_coarser` : an index of a coarser function collects the indices of the finer one.
-/

namespace Partition

variable {α ι κ : Type*}

/-- The sets of the family, at the indices `I`, are a partition of `whole`. -/
structure IsPartition (I : Set ι) (part : ι → Set α) (whole : Set α) : Prop where
  nonempty : ∀ i ∈ I, (part i).Nonempty
  disjoint : I.PairwiseDisjoint part
  union : ⋃ i ∈ I, part i = whole

variable {I : Set ι} {K : Set κ} {part : ι → Set α} {coarse : κ → Set α} {whole : Set α}

/-- The fibers of a function onto the indices are a partition. -/
theorem IsPartition.of_fibers (f : α → ι) (hpart : ∀ i ∈ I, ∀ a, a ∈ part i ↔ a ∈ whole ∧ f a = i)
    (hmaps : ∀ a ∈ whole, f a ∈ I) (honto : ∀ i ∈ I, ∃ a ∈ whole, f a = i) :
    IsPartition I part whole where
  nonempty i hi := by
    obtain ⟨a, ha, hf⟩ := honto i hi
    exact ⟨a, (hpart i hi a).mpr ⟨ha, hf⟩⟩
  disjoint i hi j hj hne := by
    refine Set.disjoint_left.mpr fun a hai haj => hne ?_
    rw [← ((hpart i hi a).mp hai).2, ((hpart j hj a).mp haj).2]
  union := by
    ext a
    simp only [Set.mem_iUnion, exists_prop]
    refine ⟨fun ⟨i, hi, ha⟩ => ((hpart i hi a).mp ha).1, fun ha => ?_⟩
    exact ⟨f a, hmaps a ha, (hpart _ (hmaps a ha) a).mpr ⟨ha, rfl⟩⟩

/-- What a partition into finer sets makes of a set of a coarser one. -/
theorem IsPartition.of_coarser (h : IsPartition I part whole) {up : ι → κ} {k : κ}
    (hcoarse : ∀ i ∈ I, ∀ a ∈ part i, a ∈ coarse k ↔ up i = k) (hsub : coarse k ⊆ whole) :
    IsPartition {i ∈ I | up i = k} part (coarse k) where
  nonempty i hi := h.nonempty i hi.1
  disjoint := h.disjoint.subset fun _ hi => hi.1
  union := by
    ext a
    simp only [Set.mem_iUnion, exists_prop]
    constructor
    · rintro ⟨i, ⟨hi, hup⟩, ha⟩
      exact (hcoarse i hi a ha).mpr hup
    · intro ha
      have hwhole : a ∈ ⋃ i ∈ I, part i := h.union.symm ▸ hsub ha
      simp only [Set.mem_iUnion, exists_prop] at hwhole
      obtain ⟨i, hi, hai⟩ := hwhole
      exact ⟨i, ⟨hi, (hcoarse i hi a hai).mp ha⟩, hai⟩

end Partition
