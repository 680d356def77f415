import Mathlib

/-!
# Rounding and closeness

* `roundEven` : the nearest integer, and the even one of two;
* `roundEven_intCast`, `abs_sub_roundEven_le` : integers stay, and a half is the greatest error;
* `isClose` : closeness with a relative and an absolute tolerance.
-/

namespace Rounding

/-- The nearest integer, and the even one of two. -/
def roundEven (x : ℚ) : ℤ :=
  let d := x - ⌊x⌋
  if d < 1 / 2 then ⌊x⌋
  else if 1 / 2 < d then ⌊x⌋ + 1
  else if ⌊x⌋ % 2 = 0 then ⌊x⌋ else ⌊x⌋ + 1

@[simp] theorem roundEven_intCast (n : ℤ) : roundEven n = n := by
  simp [roundEven]

/-- No number is further than a half from the integer it is rounded to. -/
theorem abs_sub_roundEven_le (x : ℚ) : |x - roundEven x| ≤ 1 / 2 := by
  have hle := Int.floor_le x
  have hlt := Int.lt_floor_add_one x
  rw [roundEven, abs_le]
  split_ifs <;> push_cast <;> constructor <;> linarith

/-- A number that is not negative is not rounded to a negative one. -/
theorem roundEven_nonneg {x : ℚ} (h : 0 ≤ x) : 0 ≤ roundEven x := by
  have habs := abs_le.mp (abs_sub_roundEven_le x)
  have hgt : (-1 : ℚ) < roundEven x := by linarith
  have hgt : -1 < roundEven x := by exact_mod_cast hgt
  omega

/-- The difference is within a tolerance relative to the numbers, or within an absolute one. -/
def isClose (a b rel abs : ℚ) : Bool := decide (|a - b| ≤ max (rel * max |a| |b|) abs)

/-- A number is close to zero when it is within the absolute tolerance. -/
theorem isClose_zero_iff {a rel abs : ℚ} (hrel : rel < 1) (ha : 0 ≤ a) (habs : 0 ≤ abs) :
    isClose a 0 rel abs = true ↔ a ≤ abs := by
  rw [isClose, decide_eq_true_iff, sub_zero, abs_zero, abs_of_nonneg ha, max_eq_left ha, le_max_iff]
  constructor
  · rintro (h | h)
    · nlinarith
    · exact h
  · exact .inr

end Rounding
