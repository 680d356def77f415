import Mathlib

/-!
# Mean and variance

The mean of a list of numbers, the variance that is estimated from it, and the differences between
its elements.

* `mean`, `variance` : the definitions; both are zero where the denominator is;
* `variance_eq` : the variance from the sums of the numbers and of their squares;
* `differences` : the differences of neighbours; `differences_concat`.
-/

namespace Moments

variable {K : Type*} [Field K]

/-- The arithmetic mean. -/
def mean (xs : List K) : K := xs.sum / xs.length

/-- The variance, where one degree of freedom goes into the mean. -/
def variance (xs : List K) : K :=
  (xs.map fun x => (x - mean xs) ^ 2).sum / ((xs.length - 1 : ℕ) : K)

/-- The sum of the squared distances from a point. -/
theorem sum_sq_sub (c : K) (xs : List K) :
    (xs.map fun x => (x - c) ^ 2).sum =
      (xs.map fun x => x * x).sum - 2 * c * xs.sum + xs.length * c ^ 2 := by
  induction xs with
  | nil => simp
  | cons x xs ih =>
    simp only [List.map_cons, List.sum_cons, List.length_cons, Nat.cast_succ] at ih ⊢
    linear_combination ih

theorem variance_eq [CharZero K] {xs : List K} (h : xs ≠ []) :
    variance xs = ((xs.map fun x => x * x).sum - xs.sum * xs.sum / xs.length) /
      ((xs.length - 1 : ℕ) : K) := by
  have hlength : (xs.length : K) ≠ 0 :=
    Nat.cast_ne_zero.mpr (List.length_pos_iff.mpr h).ne'
  rw [variance, sum_sq_sub, mean]
  congr 1
  field_simp
  ring

/-- The differences between neighbours. -/
def differences : List K → List K
  | x :: y :: xs => (y - x) :: differences (y :: xs)
  | _ => []

@[simp] theorem length_differences (xs : List K) : (differences xs).length = xs.length - 1 := by
  induction xs with
  | nil => rfl
  | cons x xs ih =>
    cases xs with
    | nil => rfl
    | cons y xs => simpa [differences] using ih

theorem differences_concat {xs : List K} {last : K} (h : xs.getLast? = some last) (x : K) :
    differences (xs ++ [x]) = differences xs ++ [x - last] := by
  induction xs with
  | nil => cases h
  | cons y ys ih =>
    cases ys with
    | nil =>
      cases h
      rfl
    | cons z zs =>
      have hlast : (z :: zs).getLast? = some last := by simpa using h
      have hnext := ih hlast
      simp only [List.cons_append, differences] at hnext ⊢
      rw [hnext]

end Moments
