import Geopm.Pio.IOGroup

/-!
# Arithmetic with values

The operators of `double`, on exact numbers and NaN.

* `Value.gt`, `Value.lt`, `Value.le`, `Value.ne` : the comparisons; NaN is not comparable;
* `Value.add`, `Value.sub`, `Value.mul` : the results with NaN are NaN;
* `Value.min`, `Value.max` : `std::min` and `std::max`, which return the first operand when the
  operands are not comparable;
* `Value.div`, `Value.quot` : the quotient, where a quotient by zero is an error or is not a number.
-/

namespace Geopm.Pio.Value

/-- `a > b`. -/
def gt : Value → Value → Bool
  | some x, some y => decide (y < x)
  | _, _ => false

/-- `a < b`. -/
def lt (a b : Value) : Bool := b.gt a

/-- `a <= b`. -/
def le : Value → Value → Bool
  | some x, some y => decide (x ≤ y)
  | _, _ => false

/-- `a != b`. -/
def ne : Value → Value → Bool
  | some x, some y => decide (x ≠ y)
  | _, _ => true

/-- `a + b`. -/
def add (a b : Value) : Value := a.bind fun x => b.map fun y => x + y

/-- `a - b`. -/
def sub (a b : Value) : Value := a.bind fun x => b.map fun y => x - y

/-- `a * b`. -/
def mul (a b : Value) : Value := a.bind fun x => b.map fun y => x * y

/-- `std::min`. -/
def min (a b : Value) : Value := if b.lt a then b else a

/-- `std::max`. -/
def max (a b : Value) : Value := if a.lt b then b else a

/-- `a / b`.  A quotient by zero is not a value, and it ends the computation. -/
def div (a b : Value) : Except Exception Value :=
  if b = some 0 then .error { what := "division by zero", err := .runtime }
  else .ok (a.bind fun x => b.map fun y => x / y)

/-- `a / b`, where the quotient of a positive number by zero is only asked whether it is less than
another number: it is not, and neither is NaN. -/
def quot (a b : Value) : Value :=
  if b = some 0 then none else a.bind fun x => b.map fun y => x / y

/-- `std::numeric_limits<double>::max()`. -/
def largest : Value := some ((2 ^ 53 - 1) * 2 ^ 971)

section Lemmas

@[simp] theorem gt_self (x : Value) : x.gt x = false := by
  cases x <;> simp [gt]

/-- The lesser of two numbers. -/
@[simp] theorem min_some (x y : ℚ) : min (some x) (some y) = some (Min.min x y) := by
  show (if decide (y < x) = true then some y else some x) = _
  by_cases hlt : y < x
  · rw [decide_eq_true hlt, if_pos rfl, min_eq_right hlt.le]
  · rw [decide_eq_false hlt, if_neg Bool.false_ne_true, min_eq_left (not_lt.mp hlt)]

@[simp] theorem max_some (x y : ℚ) : max (some x) (some y) = some (Max.max x y) := by
  show (if decide (x < y) = true then some y else some x) = _
  by_cases hlt : x < y
  · rw [decide_eq_true hlt, if_pos rfl, max_eq_right hlt.le]
  · rw [decide_eq_false hlt, if_neg Bool.false_ne_true, max_eq_left (not_lt.mp hlt)]

theorem min_of_le {a b : Value} (h : a.le b = true) : a.min b = a := by
  cases a with
  | none => cases h
  | some x =>
    cases b with
    | none => cases h
    | some y => rw [min_some, min_eq_left (of_decide_eq_true h)]

theorem div_some {x y : ℚ} (hy : y ≠ 0) : div (some x) (some y) = .ok (some (x / y)) := by
  unfold div
  rw [if_neg fun hzero => hy (Option.some.inj hzero)]
  rfl

theorem quot_some {x y : ℚ} (hy : y ≠ 0) : quot (some x) (some y) = some (x / y) := by
  unfold quot
  rw [if_neg fun hzero => hy (Option.some.inj hzero)]
  rfl

end Lemmas

end Geopm.Pio.Value
