import Mathlib

/-!
# Spans of a sequence

A span is a longest part of a sequence in which it does not change.

* `OpenSpan g n i` : the span that the first `n` terms end with begins at `i`;
* `Span g n i j` : a span from `i` that ended, among the first `n` terms, with the change at `j`;
* `LastSpan P g n i j` : the last of the ended spans whose terms satisfy `P`;
* `Metered x P g n current last` : a meter of the quantity `x` that is started at every change and
  read when a span that satisfies `P` ends.
-/

variable {κ A : Type*}

/-- The span that the first `n` terms end with begins at `i`. -/
structure OpenSpan (g : ℕ → κ) (n i : ℕ) : Prop where
  lt : i < n
  same : ∀ k, i ≤ k → k < n → g k = g i
  begins : i = 0 ∨ g (i - 1) ≠ g i

/-- The span from `i` has ended with the change at `j`. -/
structure Span (g : ℕ → κ) (n i j : ℕ) : Prop where
  lt : i < j
  ended : j < n
  same : ∀ k, i ≤ k → k < j → g k = g i
  ends : g j ≠ g i
  begins : i = 0 ∨ g (i - 1) ≠ g i

/-- The last of the spans that have ended with terms in `P`. -/
structure LastSpan (P : κ → Prop) (g : ℕ → κ) (n i j : ℕ) : Prop where
  span : Span g n i j
  mem : P (g i)
  last : ∀ i' j', Span g n i' j' → P (g i') → i' ≤ i

section Spans

variable {P : κ → Prop} {g : ℕ → κ} {n i j i₀ : ℕ}

theorem openSpan_one (g : ℕ → κ) : OpenSpan g 1 0 :=
  ⟨Nat.one_pos, fun _ _ hk => congrArg g (Nat.lt_one_iff.mp hk), .inl rfl⟩

/-- The last span goes on while the sequence does not change. -/
theorem OpenSpan.succ (h : OpenSpan g n i) (hg : g n = g (n - 1)) : OpenSpan g (n + 1) i := by
  obtain ⟨hlt, hsame, hbegins⟩ := h
  refine ⟨by omega, fun k hik hk => ?_, hbegins⟩
  obtain hk | rfl := Nat.lt_succ_iff_lt_or_eq.mp hk
  · exact hsame k hik hk
  · exact hg.trans (hsame _ (by omega) (by omega))

/-- A change begins a span. -/
theorem openSpan_of_change (hg : g n ≠ g (n - 1)) : OpenSpan g (n + 1) n :=
  ⟨n.lt_succ_self, fun _ _ _ => congrArg g (by omega), .inr hg.symm⟩

theorem exists_openSpan (g : ℕ → κ) (n : ℕ) : ∃ i, OpenSpan g (n + 1) i := by
  induction n with
  | zero => exact ⟨0, openSpan_one g⟩
  | succ n ih =>
    obtain ⟨i, hi⟩ := ih
    by_cases hg : g (n + 1) = g n
    · exact ⟨i, hi.succ hg⟩
    · exact ⟨n + 1, openSpan_of_change hg⟩

theorem OpenSpan.unique (h : OpenSpan g n i) (h' : OpenSpan g n j) : i = j := by
  by_contra hne
  wlog hlt : i < j generalizing i j
  · exact this h' h (Ne.symm hne) (by omega)
  -- the sequence changes at `j`, which is within the span from `i`
  obtain hj | hj := h'.begins
  · omega
  · refine hj ?_
    rw [h.same (j - 1) (by omega) (by have := h'.lt; omega), h.same j (by omega) h'.lt]

theorem OpenSpan.pred (h : OpenSpan g n i) : g (n - 1) = g i :=
  h.same _ (by have := h.lt; omega) (by have := h.lt; omega)

theorem not_span_one : ¬ Span g 1 i j := fun h => by
  have := h.lt
  have := h.ended
  omega

theorem Span.succ (h : Span g n i j) : Span g (n + 1) i j :=
  ⟨h.lt, Nat.lt_succ_of_lt h.ended, h.same, h.ends, h.begins⟩

/-- A span that ends with the next term is the open one. -/
theorem span_succ_iff (h : OpenSpan g n i₀) :
    Span g (n + 1) i j ↔ Span g n i j ∨ i = i₀ ∧ j = n ∧ g n ≠ g (n - 1) := by
  rw [h.pred]
  refine ⟨fun hspan => ?_, ?_⟩
  · obtain hlt | rfl := Nat.lt_succ_iff_lt_or_eq.mp hspan.ended
    · exact .inl ⟨hspan.lt, hlt, hspan.same, hspan.ends, hspan.begins⟩
    · have hi : i = i₀ := OpenSpan.unique ⟨hspan.lt, hspan.same, hspan.begins⟩ h
      exact .inr ⟨hi, rfl, hi ▸ hspan.ends⟩
  · rintro (hspan | ⟨rfl, rfl, hends⟩)
    · exact hspan.succ
    · exact ⟨h.lt, Nat.lt_succ_self _, h.same, hends, h.begins⟩

theorem span_succ_of_same (h : OpenSpan g n i₀) (hg : g n = g (n - 1)) :
    Span g (n + 1) i j ↔ Span g n i j := by
  rw [span_succ_iff h]
  exact or_iff_left fun hchange => hchange.2.2 hg

/-- Every span that has ended begins before the open one. -/
theorem Span.lt_open (hspan : Span g n i j) (h : OpenSpan g n i₀) : i < i₀ := by
  by_contra hle
  have hsame := h.same i (by omega) (by have := hspan.lt; have := hspan.ended; omega)
  have hend := h.same j (by have := hspan.lt; omega) hspan.ended
  exact hspan.ends (hend.trans hsame.symm)

/-- The span that ends where the open one begins is the last. -/
theorem lastSpan_of_open (hspan : Span g n i j) (hopen : OpenSpan g n j) (hP : P (g i)) :
    LastSpan P g n i j := by
  refine ⟨hspan, hP, fun i' j' hspan' _ => ?_⟩
  have hlt := hspan'.lt_open hopen
  by_contra hle
  -- the sequence does not change within the span
  have hpred := hspan.same (i' - 1) (by omega) (by omega)
  have hsame := hspan.same i' (by omega) hlt
  obtain hzero | hne := hspan'.begins
  · omega
  · exact hne (hpred.trans hsame.symm)

end Spans

/-- A meter of `x` that holds what was measured in the open span, if its terms are in `P`, and what
was measured in the last span of `P`. -/
structure Metered [AddCommGroup A] (x : ℕ → A) (P : κ → Prop) (g : ℕ → κ) (n : ℕ)
    (current last : A) : Prop where
  current_eq : ∀ i, OpenSpan g n i → P (g i) → current = x (n - 1) - x i
  last_eq : ∀ i j, LastSpan P g n i j → last = x j - x i
  last_zero : (∀ i j, Span g n i j → ¬ P (g i)) → last = 0

namespace Metered

variable [AddCommGroup A] {x : ℕ → A} {P : κ → Prop} {g : ℕ → κ} {n : ℕ}
  {current current' last last' : A}

theorem init (x : ℕ → A) (P : κ → Prop) (g : ℕ → κ) : Metered x P g 1 0 0 where
  current_eq i h _ := by
    obtain rfl : i = 0 := Nat.lt_one_iff.mp h.lt
    exact (sub_self _).symm
  last_eq i j h := absurd h.span not_span_one
  last_zero _ := rfl

section

variable (h : Metered x P g (n + 1) current last)
include h

/-- The measuring goes on while the sequence does not change. -/
theorem same (hg : g (n + 1) = g n)
    (hcurrent : P (g n) → current' = current + (x (n + 1) - x n)) :
    Metered x P g (n + 2) current' last := by
  obtain ⟨i₀, hopen⟩ := exists_openSpan g n
  refine ⟨fun i hi hP => ?_, fun i j hlast => ?_, fun hnone => ?_⟩
  · obtain rfl := hi.unique (hopen.succ hg)
    have hPn : P (g n) := by
      have hpred : g n = g i := hopen.pred
      rw [hpred]
      exact hP
    rw [hcurrent hPn, h.current_eq i hopen hP]
    simp only [Nat.add_sub_cancel]
    abel
  · refine h.last_eq i j ⟨(span_succ_of_same hopen hg).mp hlast.span, hlast.mem, ?_⟩
    exact fun i' j' hspan => hlast.last i' j' hspan.succ
  · exact h.last_zero fun i j hspan => hnone i j hspan.succ

/-- The end of a span in `P` is read. -/
theorem change_of_mem (hg : g (n + 1) ≠ g n)
    (hP : P (g n)) (hlast : last' = current + (x (n + 1) - x n))
    (hcurrent : P (g (n + 1)) → current' = 0) : Metered x P g (n + 2) current' last' := by
  obtain ⟨i₀, hopen⟩ := exists_openSpan g n
  have hpred : g n = g i₀ := hopen.pred
  have hspan : Span g (n + 2) i₀ (n + 1) := (span_succ_iff hopen).mpr (.inr ⟨rfl, rfl, hg⟩)
  refine ⟨fun i hi hPi => ?_, fun i j hij => ?_, fun hnone => ?_⟩
  · obtain rfl := hi.unique (openSpan_of_change hg)
    rw [hcurrent hPi]
    exact (sub_self _).symm
  · -- no other span of `P` begins as late as the one that has just ended
    have hle := hij.last i₀ (n + 1) hspan (hpred ▸ hP)
    obtain hold | ⟨rfl, rfl, -⟩ := (span_succ_iff hopen).mp hij.span
    · exact absurd (hold.lt_open hopen) (Nat.not_lt.mpr hle)
    · rw [hlast, h.current_eq i hopen (hpred ▸ hP)]
      simp only [Nat.add_sub_cancel]
      abel
  · exact absurd (hpred ▸ hP) (hnone i₀ (n + 1) hspan)

/-- The end of another span is not read. -/
theorem change_of_not_mem (hg : g (n + 1) ≠ g n)
    (hP : ¬ P (g n)) (hcurrent : P (g (n + 1)) → current' = 0) :
    Metered x P g (n + 2) current' last := by
  obtain ⟨i₀, hopen⟩ := exists_openSpan g n
  have hpred : g n = g i₀ := hopen.pred
  refine ⟨fun i hi hPi => ?_, fun i j hij => ?_, fun hnone => ?_⟩
  · obtain rfl := hi.unique (openSpan_of_change hg)
    rw [hcurrent hPi]
    exact (sub_self _).symm
  · obtain hold | ⟨rfl, -, -⟩ := (span_succ_iff hopen).mp hij.span
    · exact h.last_eq i j ⟨hold, hij.mem, fun i' j' hspan => hij.last i' j' hspan.succ⟩
    · exact absurd hij.mem (hpred ▸ hP)
  · exact h.last_zero fun i j hspan => hnone i j hspan.succ

end

end Metered
