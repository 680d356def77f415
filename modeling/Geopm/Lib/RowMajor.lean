import Mathlib

/-!
# Row-major numbering of a grid

The points of a grid with the side lengths `dims` are numbered from `0` on, the last coordinate
varying fastest.

* `RowMajor.coords dims r` : the coordinates of the point `r`;
* `RowMajor.rank dims cs` : the number of the point with the coordinates `cs`;
* `RowMajor.weight dims l` : the number of points of a box of the last `l` dimensions;
* `drop_coords_iff` : the last `l` coordinates are zero at the multiples of the weight;
* `rank_zeroLast` : setting them to zero rounds down to such a multiple.
-/

namespace RowMajor

open List
open Nat

/-- The coordinates of the point `r`. -/
def coords : List ℕ → ℕ → List ℕ
  | [], _ => []
  | _ :: ds, r => r / ds.prod :: coords ds (r % ds.prod)

/-- The number of the point with the coordinates `cs`. -/
def rank : List ℕ → List ℕ → ℕ
  | _ :: ds, c :: cs => c * ds.prod + rank ds cs
  | _, _ => 0

/-- The number of points of a box of the last `l` dimensions. -/
def weight (dims : List ℕ) (l : ℕ) : ℕ := (dims.drop (dims.length - l)).prod

/-- The coordinates with the last `l` set to zero. -/
def zeroLast (l : ℕ) (cs : List ℕ) : List ℕ := cs.take (cs.length - l) ++ List.replicate l 0

section

variable {dims : List ℕ} {d l r : ℕ}

@[simp] theorem length_coords (dims : List ℕ) (r : ℕ) : (coords dims r).length = dims.length := by
  induction dims generalizing r with
  | nil => rfl
  | cons d ds ih => rw [coords, length_cons, ih, length_cons]

@[simp] theorem weight_zero : weight dims 0 = 1 := by
  rw [weight, Nat.sub_zero, drop_length, prod_nil]

@[simp] theorem weight_length : weight dims dims.length = dims.prod := by
  rw [weight, Nat.sub_self, drop_zero]

theorem weight_cons (h : l ≤ dims.length) : weight (d :: dims) l = weight dims l := by
  rw [weight, weight, length_cons, succ_sub h, drop_succ_cons]

/-- One dimension more. -/
theorem weight_succ (h : dims.reverse[l]? = some d) : weight dims (l + 1) = d * weight dims l := by
  obtain ⟨hl, -⟩ := List.getElem?_eq_some_iff.mp h
  rw [length_reverse] at hl
  rw [getElem?_reverse hl] at h
  obtain ⟨hlt, hd⟩ := List.getElem?_eq_some_iff.mp h
  have hsub : dims.length - (l + 1) = dims.length - 1 - l := by omega
  have hsucc : dims.length - 1 - l + 1 = dims.length - l := by omega
  rw [weight, weight, hsub, drop_eq_getElem_cons hlt, hd, hsucc, prod_cons]

theorem weight_dvd_prod (dims : List ℕ) (l : ℕ) : weight dims l ∣ dims.prod := by
  refine ⟨(dims.take (dims.length - l)).prod, ?_⟩
  rw [weight, Nat.mul_comm, prod_take_mul_prod_drop]

/-- The last `l` coordinates are zero at the multiples of the weight. -/
theorem drop_coords_iff (h : r < dims.prod) (hl : l ≤ dims.length) :
    (∀ c ∈ (coords dims r).drop (dims.length - l), c = 0) ↔ weight dims l ∣ r := by
  induction dims generalizing r l with
  | nil =>
    obtain rfl := le_zero.mp hl
    simp [coords]
  | cons d ds ih =>
    rw [prod_cons] at h
    have hpos : 0 < ds.prod := Nat.pos_of_lt_mul_left h
    obtain hl | rfl := Nat.lt_or_eq_of_le hl
    · have hl : l ≤ ds.length := le_of_lt_succ hl
      rw [coords, length_cons, succ_sub hl, drop_succ_cons,
        ih (mod_lt _ hpos) hl, weight_cons hl]
      exact dvd_mod_iff (weight_dvd_prod ds l)
    · have ih := ih (mod_lt r hpos) (Nat.le_refl ds.length)
      rw [Nat.sub_self, drop_zero, weight_length] at ih
      rw [Nat.sub_self, drop_zero, weight_length, coords, forall_mem_cons, ih,
        prod_cons]
      refine ⟨?_, fun hdvd => ?_⟩
      · rintro ⟨hdiv, hmod⟩
        have hr : r = 0 := by
          have hmod := eq_zero_of_dvd_of_lt hmod (mod_lt r hpos)
          rw [← div_add_mod r ds.prod, hdiv, hmod]
          rfl
        rw [hr]
        exact Nat.dvd_zero _
      · rw [eq_zero_of_dvd_of_lt hdvd h]
        exact ⟨Nat.zero_div _, by rw [zero_mod]; exact Nat.dvd_zero _⟩

@[simp] theorem zeroLast_zero (cs : List ℕ) : zeroLast 0 cs = cs := by
  rw [zeroLast, Nat.sub_zero, take_length, replicate_zero, append_nil]

theorem rank_replicate (dims : List ℕ) (n : ℕ) : rank dims (List.replicate n 0) = 0 := by
  induction dims generalizing n with
  | nil => rfl
  | cons d ds ih =>
    cases n with
    | zero => rfl
    | succ n => rw [replicate_succ, rank, ih, Nat.zero_mul]

/-- Setting the last `l` coordinates to zero rounds down to a multiple of the weight. -/
theorem rank_zeroLast (h : r < dims.prod) (hl : l ≤ dims.length) :
    rank dims (zeroLast l (coords dims r)) = r / weight dims l * weight dims l := by
  induction dims generalizing r l with
  | nil =>
    obtain rfl := le_zero.mp hl
    have hr : r = 0 := lt_one_iff.mp h
    subst hr
    rfl
  | cons d ds ih =>
    rw [prod_cons] at h
    have hpos : 0 < ds.prod := Nat.pos_of_lt_mul_left h
    obtain hl | rfl := Nat.lt_or_eq_of_le hl
    · have hl : l ≤ ds.length := le_of_lt_succ hl
      obtain ⟨m, hm⟩ := weight_dvd_prod ds l
      rw [coords, zeroLast, length_cons, length_coords, succ_sub hl, take_succ_cons,
        cons_append, rank]
      have ih := ih (mod_lt r hpos) hl
      rw [zeroLast, length_coords] at ih
      rw [ih, weight_cons hl]
      have hsplit : r = r % ds.prod + weight ds l * (m * (r / ds.prod)) := by
        have hmod := mod_add_div r ds.prod
        rw [← Nat.mul_assoc, ← hm]
        exact hmod.symm
      have hdiv : r / weight ds l = r % ds.prod / weight ds l + m * (r / ds.prod) := by
        conv_lhs => rw [hsplit]
        exact add_mul_div_left _ _ (pos_of_dvd_of_pos ⟨m, hm⟩ hpos)
      calc r / ds.prod * ds.prod + r % ds.prod / weight ds l * weight ds l
          = (r % ds.prod / weight ds l + m * (r / ds.prod)) * weight ds l := by
            conv_lhs => rw [hm]
            rw [hm]
            ring
        _ = r / weight ds l * weight ds l := by rw [hdiv]
    · have hdiv : r / weight (d :: ds) (d :: ds).length = 0 := by
        rw [weight_length, prod_cons]
        exact div_eq_of_lt h
      rw [hdiv, Nat.zero_mul, zeroLast, length_coords, Nat.sub_self,
        take_zero, nil_append]
      exact rank_replicate _ _

/-- The multiples of `w` in a block of `d` of them. -/
theorem dvd_and_div_eq_iff {w q n : ℕ} (hw : 0 < w) (hd : 0 < d) :
    w ∣ n ∧ n / (d * w) = q ↔ ∃ x < d, q * (d * w) + x * w = n := by
  constructor
  · rintro ⟨⟨k, rfl⟩, rfl⟩
    refine ⟨k % d, mod_lt _ hd, ?_⟩
    rw [Nat.mul_comm w k, Nat.mul_div_mul_right _ _ hw]
    calc k / d * (d * w) + k % d * w = (k / d * d + k % d) * w := by ring
      _ = k * w := by rw [div_add_mod']
  · rintro ⟨x, hx, rfl⟩
    have hfactor : q * (d * w) + x * w = (q * d + x) * w := by ring
    refine ⟨⟨q * d + x, by rw [hfactor, Nat.mul_comm]⟩, ?_⟩
    rw [hfactor, Nat.mul_div_mul_right _ _ hw, Nat.mul_comm q, mul_add_div hd,
      div_eq_of_lt hx, Nat.add_zero]

/-- The points of a block are points of the grid when one of them is. -/
theorem lt_prod_of_div_eq {n : ℕ} (hr : r < dims.prod)
    (h : n / weight dims l = r / weight dims l) : n < dims.prod := by
  obtain ⟨m, hm⟩ := weight_dvd_prod dims l
  have hpos : 0 < weight dims l := pos_of_dvd_of_pos ⟨m, hm⟩ (by omega)
  rw [hm, Nat.mul_comm] at hr ⊢
  rw [← Nat.div_lt_iff_lt_mul hpos] at hr ⊢
  omega

end

end RowMajor
