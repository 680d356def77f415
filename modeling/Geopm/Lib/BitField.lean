import Geopm.Lib.Mask

/-!
# Bit fields

A field of a word is `n` consecutive bits of it.

* `field n s` : the mask of the `n` bits from bit `s` on;
* `toNat_extract` : the content of a field;
* `place_extract` : the content of a field, put back;
* `toNat_extract_place` : a number that is put into a field loses its high bits.
-/

namespace Mask

open BitVec

variable {w : ℕ}

/-- The mask of the `n` bits from bit `s` on. -/
def field (n s : ℕ) : BitVec w := (1#w <<< n - 1#w) <<< s

variable {n s : ℕ}

theorem getLsbD_field (h : n < w) (i : ℕ) :
    (field n s : BitVec w).getLsbD i = (decide (i < w) && decide (s ≤ i) && decide (i < s + n)) := by
  rw [field, getLsbD_shiftLeft, getLsbD_low h]
  by_cases hs : s ≤ i
  · have hsub : i - s < n ↔ i < s + n := by omega
    simp [hs, hsub, Nat.not_lt_of_ge hs]
  · simp [hs, Nat.lt_of_not_le hs]

/-- The content of a field. -/
theorem toNat_extract (h : n < w) (hs : s + n ≤ w) (x : BitVec w) :
    ((x &&& field n s) >>> s).toNat = x.toNat / 2 ^ s % 2 ^ n := by
  refine Nat.eq_of_testBit_eq fun i => ?_
  rw [testBit_toNat, getLsbD_ushiftRight, getLsbD_and, getLsbD_field h,
    Nat.testBit_mod_two_pow, Nat.testBit_div_two_pow, testBit_toNat, Nat.add_comm i s]
  by_cases hi : i < n
  · have hw : s + i < w := by omega
    simp [hi, hw]
  · simp [hi]

/-- The content of a field is put back. -/
theorem place_extract (h : n < w) (x : BitVec w) :
    ((x &&& field n s) >>> s) <<< s &&& field n s = x &&& field n s := by
  refine eq_of_getLsbD_eq fun i hi => ?_
  simp only [getLsbD_and, getLsbD_shiftLeft, getLsbD_ushiftRight,
    getLsbD_field h]
  by_cases hs : s ≤ i
  · have hlt : ¬ i < s := by omega
    simp [hs, hlt, hi]
  · simp [hs]

/-- A number that is put into a field loses its high bits. -/
theorem toNat_extract_place (h : n < w) (hs : s + n ≤ w) (x : BitVec w) :
    (((x <<< s &&& field n s) &&& field n s) >>> s).toNat = x.toNat % 2 ^ n := by
  refine Nat.eq_of_testBit_eq fun i => ?_
  rw [testBit_toNat, getLsbD_ushiftRight, getLsbD_and, getLsbD_and,
    getLsbD_field h, getLsbD_shiftLeft, Nat.testBit_mod_two_pow, testBit_toNat]
  by_cases hi : i < n
  · have hw : s + i < w := by omega
    simp [hi, hw]
  · simp [hi]

end Mask
