import Mathlib

/-!
# Truncation

Numbers are truncated towards zero, over any ordered field with a floor.

* `trunc` : the truncation; `abs_sub_trunc_lt` : it is off by less than one;
* `truncLog2` : the truncation of the logarithm to base two;
* `truncLog2_eq_trunc` : which it is for the real numbers;
* `truncLog2_bounds`, `truncLog2_bounds_of_lt_one` : the powers of two around a number.
-/

namespace Truncation

open Int

variable {K : Type*} [Field K] [LinearOrder K] [FloorRing K]

/-- The truncation of a number towards zero. -/
def trunc (x : K) : ℤ := if 0 ≤ x then ⌊x⌋ else ⌈x⌉

/-- The truncation towards zero of the logarithm to base two of a positive number. -/
def truncLog2 [IsStrictOrderedRing K] (x : K) : ℤ := if 1 ≤ x then Int.log 2 x else Int.clog 2 x

variable {x : K}

theorem trunc_of_nonneg (h : 0 ≤ x) : trunc x = ⌊x⌋ := if_pos h

theorem trunc_of_neg (h : x < 0) : trunc x = ⌈x⌉ := if_neg h.not_ge

theorem trunc_le_zero (h : x < 1) : trunc x ≤ 0 := by
  rcases le_or_gt 0 x with h' | h'
  · rw [trunc_of_nonneg h', floor_eq_zero_iff.mpr ⟨h', h⟩]
  · rw [trunc_of_neg h', ceil_le, cast_zero]
    exact h'.le

variable [IsStrictOrderedRing K]

@[simp] theorem trunc_natCast (n : ℕ) : trunc (n : K) = n := by
  rw [trunc_of_nonneg (Nat.cast_nonneg n), floor_natCast]

/-- What is truncated is less than one. -/
theorem abs_sub_trunc_lt (x : K) : |x - trunc x| < 1 := by
  rw [abs_lt]
  rcases le_or_gt 0 x with h | h
  · rw [trunc_of_nonneg h]
    constructor <;> linarith [floor_le x, lt_floor_add_one x]
  · rw [trunc_of_neg h]
    constructor <;> linarith [le_ceil x, ceil_lt_add_one x]

/-- A number above minus one is truncated to a natural number. -/
theorem trunc_nonneg_iff : 0 ≤ trunc x ↔ -1 < x := by
  rcases le_or_gt 0 x with h | h
  · rw [trunc_of_nonneg h]
    exact ⟨fun _ => by linarith, fun _ => floor_nonneg.mpr h⟩
  · rw [trunc_of_neg h]
    have hlt : (0 : ℤ) ≤ ⌈x⌉ ↔ -1 < ⌈x⌉ := by omega
    rw [hlt, lt_ceil]
    norm_num

theorem trunc_eq_zero (h : -1 < x) (h' : x < 1) : trunc x = 0 :=
  le_antisymm (trunc_le_zero h') (trunc_nonneg_iff.mpr h)

theorem le_trunc_iff {n : ℕ} (hn : 0 < n) : (n : ℤ) ≤ trunc x ↔ (n : K) ≤ x := by
  have hn : (0 : K) < n := by exact_mod_cast hn
  rcases le_or_gt 0 x with h | h
  · rw [trunc_of_nonneg h, le_floor, cast_natCast]
  · refine ⟨fun hle => ?_, fun hle => by linarith⟩
    have hzero : trunc x ≤ 0 := trunc_le_zero (by linarith)
    omega

/-! ### Logarithms -/

/-- The powers of two around a number that is at least one. -/
theorem truncLog2_bounds (h : 1 ≤ x) :
    0 ≤ truncLog2 x ∧ 2 ^ truncLog2 x ≤ x ∧ x < 2 ^ (truncLog2 x + 1) := by
  have hpos : 0 < x := by linarith
  rw [truncLog2, if_pos h]
  refine ⟨?_, ?_, ?_⟩
  · rw [log_of_one_le_right 2 h]
    exact natCast_nonneg _
  · exact_mod_cast zpow_log_le_self one_lt_two hpos
  · exact_mod_cast lt_zpow_succ_log_self one_lt_two x

/-- The powers of two around a number that is less than one. -/
theorem truncLog2_bounds_of_lt_one (hpos : 0 < x) (h : x < 1) :
    truncLog2 x ≤ 0 ∧ 2 ^ (truncLog2 x - 1) < x ∧ x ≤ 2 ^ truncLog2 x := by
  rw [truncLog2, if_neg h.not_ge]
  refine ⟨?_, ?_, ?_⟩
  · rw [clog_of_right_le_one 2 h.le]
    omega
  · exact_mod_cast zpow_pred_clog_lt_self one_lt_two hpos
  · exact_mod_cast self_le_zpow_clog one_lt_two x

/-- The powers of two decide the logarithm of a number that is at least one. -/
theorem truncLog2_eq {t : ℕ} (h : 2 ^ t ≤ x) (h' : x < 2 ^ (t + 1)) : truncLog2 x = t := by
  obtain ⟨hnonneg, hle, hlt⟩ := truncLog2_bounds ((one_le_pow₀ one_le_two).trans h)
  obtain ⟨k, hk⟩ := eq_ofNat_of_zero_le hnonneg
  rw [hk] at hle hlt ⊢
  have hkt : k < t + 1 := by
    have hpow : (2 : K) ^ k < 2 ^ (t + 1) := (by exact_mod_cast hle : (2 : K) ^ k ≤ x).trans_lt h'
    exact (pow_lt_pow_iff_right₀ one_lt_two).mp hpow
  have htk : t < k + 1 := by
    have hpow : (2 : K) ^ t < 2 ^ (k + 1) := h.trans_lt (by exact_mod_cast hlt)
    exact (pow_lt_pow_iff_right₀ one_lt_two).mp hpow
  have heq : k = t := by omega
  rw [heq]

/-- The logarithm of a power of two. -/
@[simp] theorem truncLog2_zpow (z : ℤ) : truncLog2 (2 ^ z : K) = z := by
  have hlog : Int.log 2 ((2 : ℕ) ^ z : K) = z := log_zpow one_lt_two z
  have hclog : Int.clog 2 ((2 : ℕ) ^ z : K) = z := clog_zpow one_lt_two z
  rw [truncLog2, ← Nat.cast_ofNat, hlog, hclog, ite_self]

end Truncation
