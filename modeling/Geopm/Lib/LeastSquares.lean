import Mathlib

/-!
# Least squares

The line `a + b * x` through a list of points for which the sum of the squared distances is least.

* `squares`, `IsSlope` : the sum, and the slope of a line for which it is least;
* `sxx`, `sxy` : the sums of squares and products, less those of the means; `sxx_shift`, `sxy_shift`
  : they do not depend on the origin;
* `sxx_eq_zero_iff` : `sxx` is zero when all points have the same abscissa;
* `slope`, `isSlope_iff` : otherwise the slope is `sxy / sxx`.
-/

namespace LeastSquares

open List

variable {K : Type*} [Field K]

/-- The sum of a quantity over the points. -/
def total (f : K × K → K) (points : List (K × K)) : K := (points.map f).sum

@[simp] theorem total_nil (f : K × K → K) : total f [] = 0 := rfl

@[simp] theorem total_cons (f : K × K → K) (p : K × K) (points : List (K × K)) :
    total f (p :: points) = f p + total f points := by
  simp [total]

/-- The squared distances of the points from the line `a + b * x`. -/
def squares (a b : K) (points : List (K × K)) : K :=
  total (fun p => (p.2 - a - b * p.1) ^ 2) points

/-- The sum of the squared abscissas, less that of their mean. -/
def sxx (points : List (K × K)) : K :=
  total (fun p => p.1 * p.1) points -
    total Prod.fst points * total Prod.fst points * (1 / points.length)

/-- The sum of the products, less that of the means. -/
def sxy (points : List (K × K)) : K :=
  total (fun p => p.1 * p.2) points -
    total Prod.fst points * total Prod.snd points * (1 / points.length)

section Shift

variable (x y : K) (points : List (K × K))

/-- The points as seen from another origin. -/
def shift : List (K × K) := points.map fun p => (p.1 - x, p.2 - y)

@[simp] theorem length_shift : (shift x y points).length = points.length := by
  simp [shift]

theorem total_fst_shift :
    total Prod.fst (shift x y points) = total Prod.fst points - points.length * x := by
  induction points with
  | nil => simp [shift]
  | cons p points ih =>
    simp only [shift, map_cons, total_cons, length_cons, Nat.cast_succ] at ih ⊢
    linear_combination ih

theorem total_snd_shift :
    total Prod.snd (shift x y points) = total Prod.snd points - points.length * y := by
  induction points with
  | nil => simp [shift]
  | cons p points ih =>
    simp only [shift, map_cons, total_cons, length_cons, Nat.cast_succ] at ih ⊢
    linear_combination ih

theorem total_sq_shift :
    total (fun p => p.1 * p.1) (shift x y points) =
      total (fun p => p.1 * p.1) points - 2 * x * total Prod.fst points +
        points.length * x * x := by
  induction points with
  | nil => simp [shift]
  | cons p points ih =>
    simp only [shift, map_cons, total_cons, length_cons, Nat.cast_succ] at ih ⊢
    linear_combination ih

theorem total_mul_shift :
    total (fun p => p.1 * p.2) (shift x y points) =
      total (fun p => p.1 * p.2) points - x * total Prod.snd points - y * total Prod.fst points +
        points.length * x * y := by
  induction points with
  | nil => simp [shift]
  | cons p points ih =>
    simp only [shift, map_cons, total_cons, length_cons, Nat.cast_succ] at ih ⊢
    linear_combination ih

end Shift

variable [LinearOrder K] [IsStrictOrderedRing K] {points : List (K × K)}

theorem length_ne_zero (h : points ≠ []) : (points.length : K) ≠ 0 :=
  Nat.cast_ne_zero.mpr (length_pos_iff.mpr h).ne'

theorem sxx_shift (x y : K) (h : points ≠ []) : sxx (shift x y points) = sxx points := by
  have hn := length_ne_zero h
  rw [sxx, sxx, total_sq_shift, total_fst_shift, length_shift]
  field_simp
  ring

theorem sxy_shift (x y : K) (h : points ≠ []) : sxy (shift x y points) = sxy points := by
  have hn := length_ne_zero h
  rw [sxy, sxy, total_mul_shift, total_fst_shift, total_snd_shift, length_shift]
  field_simp
  ring

/-! ### When the abscissas agree -/

theorem total_nonneg {f : K × K → K} (hf : ∀ p ∈ points, 0 ≤ f p) : 0 ≤ total f points := by
  induction points with
  | nil => simp
  | cons p points ih =>
    rw [total_cons]
    exact add_nonneg (hf p mem_cons_self) (ih fun q hq => hf q (mem_cons_of_mem _ hq))

theorem total_eq_zero_iff {f : K × K → K} (hf : ∀ p ∈ points, 0 ≤ f p) :
    total f points = 0 ↔ ∀ p ∈ points, f p = 0 := by
  induction points with
  | nil => simp
  | cons p points ih =>
    have htail : ∀ q ∈ points, 0 ≤ f q := fun q hq => hf q (mem_cons_of_mem _ hq)
    rw [total_cons, add_eq_zero_iff_of_nonneg (hf p mem_cons_self) (total_nonneg htail),
      ih htail, forall_mem_cons]

/-- `sxx` is the sum of the squared distances from the mean. -/
theorem sxx_eq_total (h : points ≠ []) :
    sxx points = total (fun p => p.1 * p.1)
      (shift (total Prod.fst points / points.length) 0 points) := by
  have hn := length_ne_zero h
  rw [sxx, total_sq_shift]
  field_simp
  ring

theorem sxx_nonneg (h : points ≠ []) : 0 ≤ sxx points := by
  rw [sxx_eq_total h]
  exact total_nonneg fun p _ => mul_self_nonneg p.1

theorem sxx_eq_zero_iff (h : points ≠ []) :
    sxx points = 0 ↔ ∀ p ∈ points, ∀ q ∈ points, p.1 = q.1 := by
  have hn := length_ne_zero h
  constructor
  · intro hzero p hp q hq
    rw [sxx_eq_total h, total_eq_zero_iff fun p _ => mul_self_nonneg p.1] at hzero
    have hmean : ∀ r ∈ points, r.1 = total Prod.fst points / points.length := fun r hr =>
      sub_eq_zero.mp (mul_self_eq_zero.mp (hzero _ (mem_map_of_mem hr)))
    rw [hmean p hp, hmean q hq]
  · intro hall
    obtain ⟨q, hq⟩ := exists_mem_of_ne_nil points h
    rw [← sxx_shift q.1 0 h, sxx, total_fst_shift, total_sq_shift]
    have hfst : ∀ ps : List (K × K), (∀ p ∈ ps, p.1 = q.1) →
        total Prod.fst ps = ps.length * q.1 ∧
          total (fun p => p.1 * p.1) ps = ps.length * q.1 * q.1 := by
      intro ps hps
      induction ps with
      | nil => simp
      | cons p ps ih =>
        obtain ⟨hone, htwo⟩ := ih fun r hr => hps r (mem_cons_of_mem _ hr)
        have hp := hps p mem_cons_self
        simp only [total_cons, length_cons, Nat.cast_succ, hp]
        exact ⟨by linear_combination hone, by linear_combination htwo⟩
    obtain ⟨hone, htwo⟩ := hfst points fun p hp => hall p hp q hq
    rw [hone, htwo]
    ring

/-! ### The slope -/

/-- The slope of a line for which the squared distances are least. -/
def IsSlope (b : K) (points : List (K × K)) : Prop :=
  ∃ a, ∀ a' b', squares a b points ≤ squares a' b' points

theorem squares_eq (a b : K) (points : List (K × K)) :
    squares a b points = total (fun p => p.2 * p.2) points - 2 * a * total Prod.snd points -
      2 * b * total (fun p => p.1 * p.2) points + points.length * a * a +
        2 * a * b * total Prod.fst points + b * b * total (fun p => p.1 * p.1) points := by
  unfold squares
  induction points with
  | nil => simp
  | cons p points ih =>
    simp only [total_cons, length_cons, Nat.cast_succ] at ih ⊢
    linear_combination ih

/-- The slope of the line through the mean that is nearest to the points. -/
def slope (points : List (K × K)) : K := sxy points / sxx points

/-- The point where that line meets the axis of ordinates. -/
def intercept (points : List (K × K)) : K :=
  (total Prod.snd points - slope points * total Prod.fst points) / points.length

/-- How much farther from the points another line is. -/
theorem squares_sub (h : points ≠ []) (hxx : sxx points ≠ 0) (a b : K) :
    squares a b points - squares (intercept points) (slope points) points =
      points.length * (a + b * total Prod.fst points / points.length -
          total Prod.snd points / points.length) ^ 2 +
        (b - slope points) ^ 2 * sxx points := by
  have hn := length_ne_zero h
  have hnormal : slope points * sxx points = sxy points := div_mul_cancel₀ _ hxx
  rw [squares_eq, squares_eq, intercept]
  generalize slope points = s at hnormal ⊢
  rw [sxx, sxy] at hnormal
  rw [sxx]
  field_simp at hnormal ⊢
  linear_combination (2 * (b - s)) * hnormal

theorem isSlope_iff (h : points ≠ []) (hxx : sxx points ≠ 0) {b : K} :
    IsSlope b points ↔ b = slope points := by
  have hpos : 0 < sxx points := lt_of_le_of_ne (sxx_nonneg h) (Ne.symm hxx)
  have hn : (0 : K) ≤ points.length := Nat.cast_nonneg _
  constructor
  · rintro ⟨a, hmin⟩
    have hle := sub_nonpos.mpr (hmin (intercept points) (slope points))
    rw [squares_sub h hxx] at hle
    have hzero : (b - slope points) ^ 2 * sxx points = 0 := by
      refine le_antisymm (le_trans ?_ hle) (by positivity)
      exact le_add_of_nonneg_left (by positivity)
    rcases mul_eq_zero.mp hzero with hsq | hcontra
    · exact sub_eq_zero.mp ((pow_eq_zero_iff two_ne_zero).mp hsq)
    · exact absurd hcontra hxx
  · rintro rfl
    refine ⟨intercept points, fun a' b' => sub_nonneg.mp ?_⟩
    rw [squares_sub h hxx]
    positivity

end LeastSquares
