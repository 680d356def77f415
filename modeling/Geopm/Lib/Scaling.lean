import Mathlib

/-!
# Clamped and scaled numbers

Numbers are clamped to a range and, when the largest of them is below the end of the range, those at
the top are scaled up until the largest is at the end.

* `Scaling.clamp`, `Scaling.raise` : the two operations;
* `Scaling.clamp_mono`, `Scaling.raise_mono` : both keep the order, when the top is upward closed;
* `Scaling.raise_eq_hi` : the largest number is raised to the end of the range.
-/

namespace Scaling

variable {K : Type*} [LinearOrder K] {lo hi group x y : K}

/-- The number of the range that is closest. -/
def clamp (lo hi x : K) : K := min hi (max lo x)

theorem clamp_le : clamp lo hi x ≤ hi := min_le_left _ _

theorem le_clamp (h : lo ≤ hi) : lo ≤ clamp lo hi x := le_min h (le_max_left _ _)

theorem clamp_mono (h : x ≤ y) : clamp lo hi x ≤ clamp lo hi y :=
  min_le_min_left _ (max_le_max_left _ h)

/-- A number of the range is not changed, and a greater one is not made less than it. -/
theorem le_clamp_of_le (hx : x ≤ hi) (h : x ≤ y) : x ≤ clamp lo hi y :=
  le_min hx (h.trans (le_max_right _ _))

/-- A number is clamped to the end of the range, or to a number that is at least as large. -/
theorem le_clamp_of_lt (h : clamp lo hi x < hi) : x ≤ clamp lo hi x := by
  obtain hhi | hmax := min_choice hi (max lo x)
  · exact absurd hhi h.ne
  · rw [clamp, hmax]
    exact le_max_right _ _

section Raise

variable [Field K] {top : K → Prop} [DecidablePred top]

/-- A number at the top is scaled by the factor that leads from `group` to the end of the range. -/
def raise (lo hi group : K) (top : K → Prop) [DecidablePred top] (x : K) : K :=
  if group < hi ∧ top x then clamp lo hi (x * (hi / group)) else x

theorem raise_le (hx : x ≤ hi) : raise lo hi group top x ≤ hi := by
  unfold raise
  split_ifs
  · exact clamp_le
  · exact hx

theorem le_raise (hlo : lo ≤ hi) (hx : lo ≤ x) : lo ≤ raise lo hi group top x := by
  unfold raise
  split_ifs
  · exact le_clamp hlo
  · exact hx

/-- The largest number is raised to the end of the range. -/
theorem raise_eq_hi (hlo : lo ≤ hi) (hpos : 0 < group) (hlt : group < hi) (htop : top group) :
    raise lo hi group top group = hi := by
  rw [raise, if_pos ⟨hlt, htop⟩, mul_div_cancel₀ _ hpos.ne', clamp, max_eq_right hlo, min_self]

variable [IsStrictOrderedRing K]

/-- Scaling makes nothing less. -/
theorem self_le_raise (hpos : 0 < x) (hx : x ≤ group) (hhi : x ≤ hi) :
    x ≤ raise lo hi group top x := by
  unfold raise
  split_ifs with h
  · have hgroup : 0 < group := hpos.trans_le hx
    refine le_clamp_of_le hhi (le_mul_of_one_le_right hpos.le ?_)
    exact (one_le_div hgroup).mpr h.1.le
  · exact le_rfl

/-- **Raising keeps the order**, when what is above the top is at the top. -/
theorem raise_mono (htop : ∀ u v, u ≤ v → top u → top v) (hpos : 0 < x) (h : x ≤ y)
    (hy : y ≤ group) (hhi : y ≤ hi) :
    raise lo hi group top x ≤ raise lo hi group top y := by
  by_cases hx : group < hi ∧ top x
  · have hgroup : 0 < group := hpos.trans_le (h.trans hy)
    have hfactor : 0 ≤ hi / group := div_nonneg (hgroup.trans hx.1).le hgroup.le
    rw [raise, raise, if_pos hx, if_pos ⟨hx.1, htop x y h hx.2⟩]
    exact clamp_mono (mul_le_mul_of_nonneg_right h hfactor)
  · have hself : x ≤ raise lo hi group top y :=
      h.trans (self_le_raise (hpos.trans_le h) hy hhi)
    rw [raise, if_neg hx]
    exact hself

end Raise

end Scaling
