import Mathlib

/-!
# Loops over vectors with checked accesses

A loop reads and writes the elements of vectors at indices.  An index without an element ends it, so
a loop that returns has stayed in the range of its vectors.

* `CheckedVector.put` : write an element;
* `CheckedVector.foldlM_total` : a loop whose rounds succeed returns, and what each of them
  establishes holds in the end;
* `CheckedVector.foldlM_keeps` : the same for what every round keeps;
* `CheckedVector.foldlM_put` : a loop that writes what does not depend on the vector;
* `CheckedVector.mapM_get` : reading at indices that are all in range.
-/

namespace CheckedVector

open List

variable {α ι σ : Type}

/-- `v[i] = x`, if there is an element. -/
def put (v : List α) (i : ℕ) (x : α) : Option (List α) :=
  if i < v.length then some (v.set i x) else none

theorem put_of_lt {v : List α} {i : ℕ} (h : i < v.length) (x : α) : put v i x = some (v.set i x) :=
  if_pos h

/-- An element that was written, and one that was not. -/
theorem getElem?_set_eq {v : List α} {i : ℕ} (h : i < v.length) (x : α) (j : ℕ) :
    (v.set i x)[j]? = if i = j then some x else v[j]? := by
  rw [getElem?_set]
  split_ifs <;> simp_all

/-- A loop whose rounds succeed returns, and what each round establishes for the elements so far
holds in the end for all of them. -/
theorem foldlM_total {f : σ → ι → Option σ} {P : List ι → σ → Prop} {xs : List ι} {s : σ}
    (h₀ : P [] s)
    (hround : ∀ done x rest, xs = done ++ x :: rest → ∀ t, P done t →
      ∃ t', f t x = some t' ∧ P (done ++ [x]) t') :
    ∃ t, xs.foldlM f s = some t ∧ P xs t := by
  suffices h : ∀ rest done t, xs = done ++ rest → P done t →
      ∃ t', rest.foldlM f t = some t' ∧ P xs t' from h xs [] s rfl h₀
  intro rest
  induction rest with
  | nil =>
    intro done t hxs ht
    rw [hxs, append_nil]
    exact ⟨t, rfl, ht⟩
  | cons x rest ih =>
    intro done t hxs ht
    obtain ⟨t', hf, ht'⟩ := hround done x rest hxs t ht
    obtain ⟨t'', hrest, ht''⟩ := ih (done ++ [x]) t' (by rw [hxs, append_assoc]; rfl) ht'
    refine ⟨t'', ?_, ht''⟩
    rw [foldlM_cons, hf]
    exact hrest

/-- What holds before a loop, and is kept by its rounds, which succeed, holds after it. -/
theorem foldlM_keeps {f : σ → ι → Option σ} {P : σ → Prop} {xs : List ι} {s : σ} (h₀ : P s)
    (hround : ∀ x ∈ xs, ∀ t, P t → ∃ t', f t x = some t' ∧ P t') :
    ∃ t, xs.foldlM f s = some t ∧ P t :=
  foldlM_total (P := fun _ => P) h₀ fun done x rest hxs t ht =>
    hround x (by rw [hxs]; exact mem_append_right _ mem_cons_self) t ht

/-- A loop that writes what does not depend on the vector. -/
theorem foldlM_put (g : ℕ → Option α) (v : List α) (is : List ℕ)
    (h : ∀ i ∈ is, i < v.length ∧ ∃ x, g i = some x) :
    ∃ w, is.foldlM (fun v i => (g i).bind (put v i)) v = some w ∧ w.length = v.length ∧
      (∀ i ∈ is, w[i]? = g i) ∧ ∀ i ∉ is, w[i]? = v[i]? := by
  refine foldlM_total (P := fun done w => w.length = v.length ∧ (∀ i ∈ done, w[i]? = g i) ∧
    ∀ i ∉ done, w[i]? = v[i]?) ⟨rfl, fun i hi => absurd hi not_mem_nil, fun _ _ => rfl⟩ ?_
  intro done i rest his w ⟨hlength, hdone, hother⟩
  obtain ⟨hi, x, hx⟩ := h i (by rw [his]; exact mem_append_right _ mem_cons_self)
  rw [← hlength] at hi
  refine ⟨w.set i x, ?_, ?_, ?_, ?_⟩
  · rw [hx, Option.bind_some, put_of_lt hi]
  · rw [length_set, hlength]
  · intro j hj
    rw [getElem?_set_eq hi]
    split_ifs with hij
    · rw [← hij, hx]
    · rw [mem_append, mem_singleton] at hj
      exact hdone j (hj.resolve_right fun h => hij h.symm)
  · intro j hj
    rw [mem_append, mem_singleton, not_or] at hj
    rw [getElem?_set_eq hi, if_neg fun hij => hj.2 hij.symm, hother j hj.1]

/-- Reading at indices that are all in range. -/
theorem mapM_get (v : List α) (is : List ℕ) (h : ∀ i ∈ is, i < v.length) :
    ∃ xs, is.mapM (fun i => v[i]?) = some xs ∧ xs.length = is.length ∧
      ∀ x ∈ xs, x ∈ v := by
  induction is with
  | nil => exact ⟨[], rfl, rfl, fun x hx => absurd hx not_mem_nil⟩
  | cons i is ih =>
    obtain ⟨xs, hxs, hlength, hmem⟩ := ih fun j hj => h j (mem_cons_of_mem _ hj)
    have hi : i < v.length := h i mem_cons_self
    refine ⟨v[i] :: xs, ?_, ?_, ?_⟩
    · rw [mapM_cons, hxs, getElem?_eq_getElem hi]
      rfl
    · rw [length_cons, length_cons, hlength]
    · rintro x (_ | ⟨_, hx⟩)
      · exact getElem_mem hi
      · exact hmem x hx

/-- Vectors that agree at the indices are read alike. -/
theorem mapM_get_congr {v w : List α} {is : List ℕ} (h : ∀ i ∈ is, v[i]? = w[i]?) :
    is.mapM (fun i => v[i]?) = is.mapM fun i => w[i]? := by
  induction is with
  | nil => rfl
  | cons i is ih =>
    rw [mapM_cons, mapM_cons, h i mem_cons_self,
      ih fun j hj => h j (mem_cons_of_mem _ hj)]

end CheckedVector
