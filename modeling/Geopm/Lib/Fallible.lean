import Mathlib

/-!
# Functions that may raise

* `Except.exists_of_bind_eq_ok` : what comes before a result that was reached;
* `Except.foldlM_range_invariant` : the invariant of a loop that counts;
* `Except.foldlM_range'_eq_ok` : a loop over the indices of a list goes through its elements.
-/

namespace Except

variable {ε α β : Type}

theorem exists_of_bind_eq_ok {x : Except ε α} {f : α → Except ε β} {b : β}
    (h : x >>= f = .ok b) : ∃ a, x = .ok a ∧ f a = .ok b := by
  cases x with
  | ok a => exact ⟨a, rfl, h⟩
  | error e => cases h

theorem exists_of_map_eq_ok {x : Except ε α} {f : α → β} {b : β} (h : x.map f = .ok b) :
    ∃ a, x = .ok a ∧ f a = b := by
  cases x with
  | ok a => exact ⟨a, rfl, Except.ok.inj h⟩
  | error e => cases h

/-- What holds at the start and is kept by each round holds after the last one. -/
theorem foldlM_range_invariant {P : ℕ → α → Prop} {f : α → ℕ → Except ε α} {n : ℕ} {a b : α}
    (h : (List.range n).foldlM f a = .ok b) (h₀ : P 0 a)
    (hround : ∀ i < n, ∀ x y, P i x → f x i = .ok y → P (i + 1) y) : P n b := by
  induction n generalizing b with
  | zero =>
    cases h
    exact h₀
  | succ n ih =>
    rw [List.range_succ, List.foldlM_append] at h
    obtain ⟨x, hx, hy⟩ := exists_of_bind_eq_ok h
    rw [List.foldlM_cons] at hy
    obtain ⟨y, hy, hb⟩ := exists_of_bind_eq_ok hy
    cases hb
    exact hround n n.lt_succ_self x _ (ih hx fun i hi => hround i (by omega)) hy

/-- A loop over the indices of a list goes through its elements. -/
theorem foldlM_range'_eq_ok {ys : List β} {g : ℕ → Except ε β} {f : α → β → α} {start : ℕ} {a : α}
    (h : ∀ (i : ℕ) (hi : i < ys.length), g (start + i) = .ok ys[i]) :
    (List.range' start ys.length).foldlM (fun a i => (g i).map (f a)) a = .ok (ys.foldl f a) := by
  induction ys generalizing start a with
  | nil => rfl
  | cons y ys ih =>
    have hhead : g start = .ok y := h 0 (Nat.succ_pos _)
    have htail : ∀ (i : ℕ) (hi : i < ys.length), g (start + 1 + i) = .ok ys[i] := by
      intro i hi
      have hnext := h (i + 1) (Nat.succ_lt_succ hi)
      rw [Nat.add_assoc, Nat.add_comm 1 i]
      exact hnext
    rw [List.length_cons, List.range'_succ, List.foldlM_cons, hhead]
    exact ih htail

end Except
