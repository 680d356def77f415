import Mathlib

/-!
# Repeats at the end of a list

* `List.EndsTwice p w` : the list ends with a block of the length `p`, written twice;
* `List.RepeatsLast p w` : the list is its last `p` elements, written several times;
* `endsTwice_iff_suffix`, `repeatsLast_iff_groups` : how the two are checked;
* `take_drop_suffix_iff` : how a suffix of one prefix grows to a suffix of the next one.
-/

open Nat

namespace List

variable {α : Type*} {w : List α} {p i k m : ℕ}

/-- A block of the length `p`, written twice, ends the list. -/
def EndsTwice (p : ℕ) (w : List α) : Prop := ∃ u v, v.length = p ∧ w = u ++ (v ++ v)

/-- The list is its last `p` elements, written `k` times. -/
def RepeatsLast (p : ℕ) (w : List α) : Prop :=
  0 < p ∧ p ≤ w.length ∧ ∃ k, w = (replicate k (w.drop (w.length - p))).flatten

section EndsTwice

/-- The last elements are also the last ones of those before them. -/
theorem endsTwice_iff_suffix (hp : p ≤ w.length) :
    EndsTwice p w ↔ w.drop (w.length - p) <:+ w.take (w.length - p) := by
  constructor
  · rintro ⟨u, v, rfl, rfl⟩
    have hlength : (u ++ (v ++ v)).length - v.length = (u ++ v).length := by
      simp only [length_append]
      omega
    rw [hlength, ← append_assoc, drop_left, take_left]
    exact suffix_append u v
  · rintro ⟨u, hu⟩
    refine ⟨u, w.drop (w.length - p), ?_, ?_⟩
    · rw [length_drop]
      omega
    · rw [← append_assoc, hu, take_append_drop]

theorem concat_suffix_concat_iff {u v : List α} {a b : α} :
    u ++ [a] <:+ v ++ [b] ↔ a = b ∧ u <:+ v := by
  rw [← reverse_prefix, reverse_concat, reverse_concat, cons_prefix_cons, reverse_prefix]

/-- What lies between `m` and `k + 1` ends the first `i + 1` elements when the last elements are
equal, and the rest ends the first `i` ones. -/
theorem take_drop_suffix_iff (hm : m ≤ k) (hk : k < w.length) (hi : i < w.length) :
    (w.take (k + 1)).drop m <:+ w.take (i + 1) ↔
      w[i]? = w[k]? ∧ (w.take k).drop m <:+ w.take i := by
  rw [take_succ_eq_append_getElem hk, take_succ_eq_append_getElem hi,
    drop_append_of_le_length (by rw [length_take]; omega), concat_suffix_concat_iff,
    getElem?_eq_getElem hi, getElem?_eq_getElem hk, Option.some_inj, eq_comm]

/-- Nothing that is not empty ends the empty prefix. -/
theorem not_suffix_take_zero (hm : m < k) (hk : k ≤ w.length) :
    ¬ (w.take k).drop m <:+ w.take 0 := by
  intro h
  have hlength := h.length_le
  simp only [length_drop, length_take, take_zero, length_nil] at hlength
  omega

end EndsTwice

section RepeatsLast

/-- A list with the period `p` is its first `p` elements, written several times. -/
theorem eq_flatten_of_hasPeriod (h : HasPeriod w p) (hw : w.length = p * k) :
    w = (replicate k (w.take p)).flatten := by
  induction k generalizing w with
  | zero => exact length_eq_zero_iff.mp hw
  | succ k ih =>
    have hrest : (w.drop p).length = p * k := by
      rw [length_drop, hw, mul_succ]
      omega
    have hperiod : HasPeriod (w.drop p) p := h.infix (drop_suffix p w).isInfix
    rw [replicate_succ, flatten_cons]
    conv_lhs => rw [← take_append_drop p w, ih hperiod hrest]
    cases k with
    | zero => rfl
    | succ k =>
      -- the second group is the first one
      have hgroup : (w.drop p).take p = w.take p := by
        obtain ⟨t, ht⟩ := h.drop_prefix
        conv_rhs => rw [← ht]
        rw [take_append_of_le_length (by rw [hrest, mul_succ]; omega)]
      rw [hgroup]

theorem hasPeriod_flatten_replicate (k : ℕ) (v : List α) :
    HasPeriod (replicate k v).flatten v.length := by
  cases k with
  | zero => exact hasPeriod_empty _
  | succ k =>
    have htake : ((replicate (k + 1) v).flatten).take v.length = v := by
      rw [replicate_succ, flatten_cons, take_left]
    rw [HasPeriod, htake, ← flatten_cons, ← replicate_succ, replicate_succ' (n := k + 1),
      flatten_concat]
    exact prefix_append _ _

theorem repeatsLast_iff (hp : 0 < p) (hw : w ≠ []) :
    RepeatsLast p w ↔ p ∣ w.length ∧ HasPeriod w p := by
  constructor
  · rintro ⟨-, hle, k, hk⟩
    have hlast : (w.drop (w.length - p)).length = p := by
      rw [length_drop]
      omega
    constructor
    · rw [hk, length_flatten, map_replicate, sum_replicate, hlast]
      exact Dvd.intro_left _ rfl
    · have h := hasPeriod_flatten_replicate k (w.drop (w.length - p))
      rw [← hk, hlast] at h
      exact h
  · rintro ⟨⟨k, hk⟩, h⟩
    have hpos : 0 < k := by
      refine Nat.pos_of_ne_zero fun hzero => hw (length_eq_zero_iff.mp ?_)
      rw [hk, hzero, Nat.mul_zero]
    have hle : p ≤ w.length := hk ▸ Nat.le_mul_of_pos_right p hpos
    refine ⟨hp, hle, k, ?_⟩
    have hflatten := eq_flatten_of_hasPeriod h hk
    have hlast : w.drop (w.length - p) = w.take p := by
      obtain ⟨j, rfl⟩ := exists_eq_succ_of_ne_zero hpos.ne'
      have hconcat : w = (replicate j (w.take p)).flatten ++ w.take p := by
        rw [← flatten_concat, ← replicate_succ']
        exact hflatten
      have hlength : w.length - p = (replicate j (w.take p)).flatten.length := by
        have hsum := congrArg length hconcat
        rw [length_append, length_take] at hsum
        omega
      calc w.drop (w.length - p)
          = ((replicate j (w.take p)).flatten ++ w.take p).drop (w.length - p) :=
            congrArg (drop _) hconcat
        _ = w.take p := by rw [hlength, drop_left]
    rw [hlast]
    exact hflatten

/-- Every group of `p` elements is equal to the group before it. -/
theorem hasPeriod_iff_groups (hp : 0 < p) (hdvd : p ∣ w.length) :
    HasPeriod w p ↔ ∀ g, 1 ≤ g → g < w.length / p →
      (w.drop (p * g - p)).take p = (w.drop (p * g)).take p := by
  obtain ⟨k, hk⟩ := hdvd
  have hdiv : w.length / p = k := by rw [hk, Nat.mul_div_cancel_left _ hp]
  rw [hasPeriod_iff_getElem?, hdiv]
  constructor
  · intro h g hg hgk
    refine ext_getElem? fun i => ?_
    obtain ⟨g, rfl⟩ := exists_eq_succ_of_ne_zero (Nat.ne_of_gt hg)
    have hend : p * (g + 1) + p ≤ w.length := by
      rw [hk, ← mul_succ]
      exact Nat.mul_le_mul_left p hgk
    rw [getElem?_take, getElem?_take, getElem?_drop, getElem?_drop, mul_succ,
      Nat.add_sub_cancel]
    split_ifs with hi
    · rw [h _ (by rw [mul_succ] at hend; omega)]
      exact congrArg (w[·]?) (by omega)
    · rfl
  · intro h i hi
    have hgroup : i / p + 1 < k := by
      rw [← add_div_right i hp, Nat.div_lt_iff_lt_mul hp, Nat.mul_comm k, ← hk]
      omega
    have hget := congrArg (·[i % p]?) (h (i / p + 1) (Nat.le_add_left 1 _) hgroup)
    rw [getElem?_take_of_lt (mod_lt _ hp), getElem?_take_of_lt (mod_lt _ hp),
      getElem?_drop, getElem?_drop, mul_succ, Nat.add_sub_cancel, div_add_mod] at hget
    rw [hget]
    exact congrArg (w[·]?) (by have := div_add_mod i p; omega)

theorem repeatsLast_length (hw : w ≠ []) : RepeatsLast w.length w := by
  refine (repeatsLast_iff (length_pos_iff.mpr hw) hw).mpr ⟨Nat.dvd_refl _, ?_⟩
  exact hasPeriod_of_length_le _ _ (Nat.le_refl _)

/-- The last elements of a block that is written twice are also written twice. -/
theorem EndsTwice.of_repeatsLast {q : ℕ} (h : EndsTwice p w)
    (hq : RepeatsLast q (w.drop (w.length - p))) : EndsTwice q w := by
  obtain ⟨u, v, rfl, rfl⟩ := h
  have hdrop : (u ++ (v ++ v)).drop ((u ++ (v ++ v)).length - v.length) = v := by
    rw [← append_assoc, length_append, Nat.add_sub_cancel, drop_left]
  rw [hdrop] at hq
  obtain ⟨hpos, hle, k, hk⟩ := hq
  set t := v.drop (v.length - q) with ht
  have hlength : t.length = q := by
    rw [ht, length_drop]
    omega
  cases k with
  | zero =>
    have hv := congrArg length hk
    rw [replicate_zero, flatten_nil, length_nil] at hv
    omega
  | succ k =>
    have hsquare : v ++ v = (replicate (k + k) t).flatten ++ (t ++ t) := by
      have hpair : (replicate 2 t).flatten = t ++ t := by simp
      rw [← hpair, ← flatten_append, replicate_append_replicate]
      conv_lhs => rw [hk, ← flatten_append, replicate_append_replicate]
      exact congrArg (fun n => (replicate n t).flatten) (by omega)
    exact ⟨u ++ (replicate (k + k) t).flatten, t, hlength, by rw [hsquare, append_assoc]⟩

end RepeatsLast

end List
