import Mathlib

/-!
# Acyclic relations

* `Acyclic` : no element leads back to itself;
* `Acyclic.exists_rank` : an acyclic relation into a finite set lowers a rank.
-/

/-- No element leads back to itself. -/
def Acyclic {α : Type*} (r : α → α → Prop) : Prop := ∀ a, ¬ Relation.TransGen r a a

/-- An acyclic relation into a finite set lowers a rank: the number of elements that are led to. -/
theorem Acyclic.exists_rank {α : Type*} {r : α → α → Prop} (h : Acyclic r) {s : List α}
    (hs : ∀ a b, r a b → b ∈ s) : ∃ rank : α → ℕ, ∀ a b, r a b → rank b < rank a := by
  classical
  refine ⟨fun a => (s.toFinset.filter (Relation.TransGen r a)).card, fun a b hab => ?_⟩
  refine Finset.card_lt_card (Finset.ssubset_iff_subset_ne.mpr ⟨fun c hc => ?_, fun heq => ?_⟩)
  · rw [Finset.mem_filter] at hc ⊢
    exact ⟨hc.1, .head hab hc.2⟩
  · have hb : b ∈ s.toFinset.filter (Relation.TransGen r a) :=
      Finset.mem_filter.mpr ⟨List.mem_toFinset.mpr (hs a b hab), .single hab⟩
    rw [← heq] at hb
    exact h b (Finset.mem_filter.mp hb).2
