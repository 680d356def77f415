import Mathlib

/-!
# Bounded lists

A bounded list keeps the values that were inserted last, as many as its capacity, in the order in
which they came.

* `BoundedList.insert`, `resize`, `clear` : the operations; `get?`, `slice` : the queries, where a
  negative index counts back from the newest value;
* `newest` : the last values of a list; `newest_eq_self`, `length_newest`, `getElem?_newest`.
-/

/-- The last `n` values of a list. -/
def newest {α : Type} (n : ℕ) (xs : List α) : List α := xs.drop (xs.length - n)

section Newest

variable {α : Type} {n : ℕ} {xs : List α}

@[simp] theorem length_newest (n : ℕ) (xs : List α) :
    (newest n xs).length = min xs.length n := by
  simp only [newest, List.length_drop]
  omega

theorem length_newest_le (n : ℕ) (xs : List α) : (newest n xs).length ≤ n := by
  rw [length_newest]
  exact Nat.min_le_right _ _

theorem newest_eq_self (h : xs.length ≤ n) : newest n xs = xs := by
  simp [newest, Nat.sub_eq_zero_of_le h]

theorem getElem?_newest (i : ℕ) : (newest n xs)[i]? = xs[xs.length - n + i]? := by
  simp [newest]

end Newest

/-- A list that holds no more values than its capacity. -/
structure BoundedList (α : Type) where
  capacity : ℕ
  items : List α
  length_le : items.length ≤ capacity

namespace BoundedList

variable {α : Type}

/-- The empty list of a capacity. -/
def empty (capacity : ℕ) : BoundedList α := ⟨capacity, [], Nat.zero_le _⟩

/-- A value is inserted behind the others; `none` when the capacity is zero. -/
def insert (l : BoundedList α) (x : α) : Option (BoundedList α) :=
  if l.capacity = 0 then none
  else some ⟨l.capacity, newest l.capacity (l.items ++ [x]), length_newest_le _ _⟩

/-- Another capacity. -/
def resize (l : BoundedList α) (capacity : ℕ) : BoundedList α :=
  ⟨capacity, newest capacity l.items, length_newest_le _ _⟩

/-- All values are dropped. -/
def clear (l : BoundedList α) : BoundedList α := empty l.capacity

/-- The value at an index, which counts from the end when it is negative. -/
def get? (l : BoundedList α) (index : ℤ) : Option α :=
  if 0 ≤ index then l.items[index.toNat]?
  else if -l.items.length ≤ index then l.items[(l.items.length + index).toNat]?
  else none

/-- The values from `start` up to, and without, `stop`; an empty slice is an error. -/
def slice (l : BoundedList α) (start stop : ℕ) : Option (List α) :=
  if start < stop ∧ stop ≤ l.items.length then some ((l.items.take stop).drop start) else none

end BoundedList
