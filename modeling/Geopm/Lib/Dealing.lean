import Mathlib

/-!
# Dealing with a stride

The elements of a list are dealt to players: to each those at the places that leave its remainder by
the stride.

* `turn l inc r` : the elements at the places that leave the remainder `r`;
* `disjoint_turn_iff`, `nonempty_turn_iff` : when two players share nothing, when one has something;
* `Deals`, `deals_iff` : the elements are dealt once each, and a player goes without only if there
  are more players than elements, in terms of the remainders.
-/

namespace Dealing

variable {α ι : Type*} {l : List α} {inc r r' : ℕ} {x : α}

/-- The elements at the places that leave the remainder `r`. -/
def turn (l : List α) (inc r : ℕ) : Set α := {x | ∃ k, k % inc = r ∧ l[k]? = some x}

theorem turn_subset : turn l inc r ⊆ {x | x ∈ l} :=
  fun _ ⟨_, _, hx⟩ => List.mem_of_getElem? hx

/-- The element at a place is in the turn of its remainder only. -/
theorem getElem_mem_turn_iff (hl : l.Nodup) {k : ℕ} (hk : k < l.length) :
    l[k] ∈ turn l inc r ↔ k % inc = r := by
  constructor
  · rintro ⟨j, hj, hx⟩
    obtain ⟨hlt, heq⟩ := List.getElem?_eq_some_iff.mp hx
    rwa [← (hl.getElem_inj_iff).mp heq]
  · intro hr
    exact ⟨k, hr, List.getElem?_eq_getElem hk⟩

theorem nonempty_turn_iff (hr : r < inc) : (turn l inc r).Nonempty ↔ r < l.length := by
  constructor
  · rintro ⟨x, k, rfl, hx⟩
    obtain ⟨hlt, -⟩ := List.getElem?_eq_some_iff.mp hx
    exact (Nat.mod_le k inc).trans_lt hlt
  · intro hlt
    exact ⟨l[r], r, Nat.mod_eq_of_lt hr, List.getElem?_eq_getElem hlt⟩

theorem disjoint_turn_iff (hl : l.Nodup) (hr : r < inc) :
    Disjoint (turn l inc r) (turn l inc r') ↔ r ≠ r' ∨ l.length ≤ r := by
  constructor
  · intro h
    by_contra hne
    rw [not_or, not_not, not_le] at hne
    obtain ⟨rfl, hlt⟩ := hne
    exact ((nonempty_turn_iff hr).mpr hlt).ne_empty (disjoint_self.mp h)
  · intro h
    refine Set.disjoint_left.mpr ?_
    rintro x ⟨k, rfl, hx⟩ hx'
    obtain ⟨hlt, rfl⟩ := List.getElem?_eq_some_iff.mp hx
    obtain h | h := h
    · exact h ((getElem_mem_turn_iff hl hlt).mp hx')
    · exact absurd (h.trans (Nat.mod_le k inc)) (not_le.mpr hlt)

/-- The players `I`, of whom `i` has the remainder `f i`, have every element of the list. -/
theorem covers_iff (hl : l.Nodup) (hinc : 0 < inc) {I : Set ι} {f : ι → ℕ} :
    (∀ x ∈ l, ∃ i ∈ I, x ∈ turn l inc (f i)) ↔
      ∀ r < inc, r < l.length → ∃ i ∈ I, f i = r := by
  constructor
  · intro h r hr hlt
    obtain ⟨i, hi, hx⟩ := h l[r] (List.getElem_mem hlt)
    rw [getElem_mem_turn_iff hl hlt, Nat.mod_eq_of_lt hr] at hx
    exact ⟨i, hi, hx.symm⟩
  · intro h x hx
    obtain ⟨k, hlt, rfl⟩ := List.getElem_of_mem hx
    obtain ⟨i, hi, hf⟩ := h (k % inc) (Nat.mod_lt k hinc) ((Nat.mod_le k inc).trans_lt hlt)
    exact ⟨i, hi, (getElem_mem_turn_iff hl hlt).mpr hf.symm⟩

/-- The elements are dealt once each to the players `I`, and nobody goes without if there are at least
as many elements as players. -/
structure Deals (l : List α) (I : Set ι) (share : ι → Set α) : Prop where
  disjoint : I.PairwiseDisjoint share
  covers : ∀ x ∈ l, ∃ i ∈ I, x ∈ share i
  nonempty : I.ncard ≤ l.length → ∀ i ∈ I, (share i).Nonempty

/-- **The elements are dealt** exactly when each remainder that a place leaves is that of one player,
and the remainder of every player is that of a place, if there are at least as many elements as
players. -/
theorem deals_iff (hl : l.Nodup) {I : Set ι} {f : ι → ℕ} (hf : ∀ i ∈ I, f i < inc) (hinc : 0 < inc) :
    Deals l I (fun i => turn l inc (f i)) ↔
      (∀ r < inc, r < l.length → ∃! i, i ∈ I ∧ f i = r) ∧
        (I.ncard ≤ l.length → ∀ i ∈ I, f i < l.length) := by
  constructor
  · rintro ⟨hdisjoint, hcovers, hnonempty⟩
    refine ⟨fun r hr hlt => ?_, fun hcard i hi => (nonempty_turn_iff (hf i hi)).mp
      (hnonempty hcard i hi)⟩
    obtain ⟨i, hi, rfl⟩ := (covers_iff hl hinc).mp hcovers r hr hlt
    refine ⟨i, ⟨hi, rfl⟩, fun j ⟨hj, hij⟩ => ?_⟩
    by_contra hne
    obtain h | h := (disjoint_turn_iff hl (hf j hj)).mp (hdisjoint hj hi hne)
    · exact h hij
    · omega
  · rintro ⟨hunique, hlt⟩
    refine ⟨fun i hi j hj hne => (disjoint_turn_iff hl (hf i hi)).mpr ?_,
      (covers_iff hl hinc).mpr fun r hr hlt => ?_,
      fun hcard i hi => (nonempty_turn_iff (hf i hi)).mpr (hlt hcard i hi)⟩
    · by_contra h
      rw [not_or, not_not, not_le] at h
      exact hne ((hunique (f i) (hf i hi) h.2).unique ⟨hi, rfl⟩ ⟨hj, h.1.symm⟩)
    · obtain ⟨i, hi, -⟩ := hunique r hr hlt
      exact ⟨i, hi⟩

end Dealing
