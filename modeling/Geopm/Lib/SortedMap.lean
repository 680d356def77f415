import Mathlib

/-!
# Maps as lists in the order of their keys

* `SortedMap.assign` : the value of a key, set in its place in the list;
* `SortedMap.lookup_assign` : what a lookup finds afterwards.
-/

namespace SortedMap

variable {K V A : Type*} [LT K] [DecidableLT K] [DecidableEq K]

/-- Set the value of a key. -/
def assign (key : K) (value : V) : List (K × V) → List (K × V)
  | [] => [(key, value)]
  | (other, v) :: map =>
    if key < other then (key, value) :: (other, v) :: map
    else if key = other then (key, value) :: map
    else (other, v) :: assign key value map

omit [LT K] [DecidableLT K] in
theorem lookup_cons_ite (key other : K) (value : V) (map : List (K × V)) :
    List.lookup other ((key, value) :: map) =
      if other = key then some value else map.lookup other := by
  rw [List.lookup_cons]
  by_cases h : other = key
  · simp [h]
  · rw [if_neg h, beq_false_of_ne h]

theorem lookup_assign (key other : K) (value : V) (map : List (K × V)) :
    (assign key value map).lookup other =
      if other = key then some value else map.lookup other := by
  induction map with
  | nil => exact lookup_cons_ite key other value []
  | cons it map ih =>
    obtain ⟨first, v⟩ := it
    unfold assign
    by_cases hlt : key < first
    · rw [if_pos hlt, lookup_cons_ite]
    · rw [if_neg hlt]
      by_cases hkey : key = first
      · subst hkey
        rw [if_pos rfl, lookup_cons_ite, lookup_cons_ite]
        split_ifs <;> rfl
      · rw [if_neg hkey, lookup_cons_ite, lookup_cons_ite, ih]
        by_cases hother : other = key
        · subst hother
          simp [hkey]
        · simp [hother]

end SortedMap
