import Mathlib

/-!
# The last result of a function on a list

* `lastOf` : the result of the last element that has one;
* `lastOf_eq_some_iff`, `lastOf_eq_none_iff` : which element that is, and when there is none;
* `lastOf_append`, `lastOf_eq_some_of_forall` : the last result on two lists, and among results that
  are alike.
-/

/-- The last result of a function on a list. -/
def lastOf {α β : Type} (f : α → Option β) (xs : List α) : Option β := xs.reverse.findSome? f

section LastOf

variable {α β : Type} {f : α → Option β} {xs : List α} {b : β}

theorem lastOf_eq_some_iff : lastOf f xs = some b ↔
    ∃ before a after, xs = before ++ a :: after ∧ f a = some b ∧ ∀ x ∈ after, f x = none := by
  unfold lastOf
  rw [List.findSome?_eq_some_iff]
  constructor
  · rintro ⟨l₁, a, l₂, hxs, ha, hnone⟩
    refine ⟨l₂.reverse, a, l₁.reverse, ?_, ha, fun x hx => hnone x (List.mem_reverse.mp hx)⟩
    rw [← List.reverse_reverse xs, hxs]
    simp
  · rintro ⟨before, a, after, rfl, ha, hnone⟩
    refine ⟨after.reverse, a, before.reverse, by simp, ha, fun x hx => ?_⟩
    exact hnone x (List.mem_reverse.mp hx)

theorem lastOf_eq_none_iff : lastOf f xs = none ↔ ∀ x ∈ xs, f x = none := by
  unfold lastOf
  rw [List.findSome?_eq_none_iff]
  exact ⟨fun h x hx => h x (List.mem_reverse.mpr hx), fun h x hx => h x (List.mem_reverse.mp hx)⟩

/-- The result of a position after which there is no other. -/
theorem lastOf_eq_some_of_getElem? {a : α} {i : ℕ} (hi : xs[i]? = some a) (ha : f a = some b)
    (hlater : ∀ j x, i < j → xs[j]? = some x → f x = none) : lastOf f xs = some b := by
  obtain ⟨hlt, rfl⟩ := List.getElem?_eq_some_iff.mp hi
  refine lastOf_eq_some_iff.mpr ⟨xs.take i, xs[i], xs.drop (i + 1), ?_, ha, fun x hx => ?_⟩
  · rw [List.getElem_cons_drop, List.take_append_drop]
  · obtain ⟨j, hj⟩ := List.mem_iff_getElem?.mp hx
    rw [List.getElem?_drop] at hj
    exact hlater (i + 1 + j) x (by omega) hj

theorem lastOf_concat (f : α → Option β) (xs : List α) (x : α) :
    lastOf f (xs ++ [x]) = (f x).or (lastOf f xs) := by
  unfold lastOf
  rw [List.reverse_append, List.reverse_singleton, List.singleton_append, List.findSome?_cons]
  cases f x <;> rfl

theorem lastOf_append (f : α → Option β) (xs ys : List α) :
    lastOf f (xs ++ ys) = (lastOf f ys).or (lastOf f xs) := by
  simp [lastOf, List.reverse_append, List.findSome?_append]

theorem lastOf_getD_of_forall (hall : ∀ x ∈ xs, ∀ c, f x = some c → c = b) :
    (lastOf f xs).getD b = b := by
  cases hlast : lastOf f xs with
  | none => rfl
  | some c =>
    obtain ⟨before, a, after, rfl, ha, -⟩ := lastOf_eq_some_iff.mp hlast
    exact hall a (List.mem_append_right _ List.mem_cons_self) c ha

/-- Where all results are alike, one of them is the last one. -/
theorem lastOf_eq_some_of_forall (hall : ∀ x ∈ xs, ∀ c, f x = some c → c = b)
    (hsome : ∃ x ∈ xs, f x ≠ none) : lastOf f xs = some b := by
  cases hlast : lastOf f xs with
  | none =>
    obtain ⟨x, hx, hne⟩ := hsome
    exact absurd (lastOf_eq_none_iff.mp hlast x hx) hne
  | some c =>
    have hc := lastOf_getD_of_forall hall
    rw [hlast] at hc
    exact congrArg some hc

theorem lastOf_filterMap {γ : Type} (f : β → Option γ) (g : α → Option β) (xs : List α) :
    lastOf f (xs.filterMap g) = lastOf (fun x => (g x).bind f) xs := by
  induction xs using List.reverseRecOn with
  | nil => rfl
  | append_singleton xs x ih =>
    rw [List.filterMap_append, lastOf_concat, ← ih]
    cases hx : g x with
    | none => rw [List.filterMap_cons_none hx, List.filterMap_nil, List.append_nil]; rfl
    | some y => rw [List.filterMap_cons_some hx, List.filterMap_nil, lastOf_concat]; rfl

end LastOf
