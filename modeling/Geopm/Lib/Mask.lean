import Mathlib

/-!
# Masked writes

* `overlay mask value x` : the bits of `mask` are cleared in `x`, and those of `value` are set;
* `overlay_overlay` : two masked writes are one;
* `and_eq_self_iff`, `overlay_within` : values that obey their masks;
* `and_not_eq_zero_iff` : the same, by bits;
* `getLsbD_low` : the mask of the lowest bits.
-/

namespace Mask

open BitVec

variable {w : ℕ}

/-- The bits of the mask are cleared, and those of the value are set. -/
def overlay (mask value x : BitVec w) : BitVec w := (x &&& ~~~mask) ||| value

variable {m m' v v' x : BitVec w}

theorem overlay_zero : overlay 0#w 0#w x = x := by
  simp [overlay]

/-- Two masked writes are one. -/
theorem overlay_overlay :
    overlay m' v' (overlay m v x) = overlay (m ||| m') (overlay m' v' v) x := by
  unfold overlay
  ext i hi
  simp only [getElem_or, getElem_and, getElem_not]
  cases x[i] <;> cases m[i] <;> cases m'[i] <;> cases v[i] <;> simp

/-- The value of a masked write stays within the masks. -/
theorem overlay_within (hv : v &&& ~~~m = 0#w) (hv' : v' &&& ~~~m' = 0#w) :
    overlay m' v' v &&& ~~~(m ||| m') = 0#w := by
  unfold overlay
  ext i hi
  have h := congrArg (fun b => b[i]) hv
  have h' := congrArg (fun b => b[i]) hv'
  simp only [getElem_or, getElem_and, getElem_not, getElem_zero] at *
  revert h h'
  cases m[i] <;> cases m'[i] <;> cases v[i] <;> cases v'[i] <;> simp

/-- A value obeys a mask if it has no other bits. -/
theorem and_eq_self_iff : v &&& m = v ↔ v &&& ~~~m = 0#w := by
  constructor
  · intro h
    rw [← h, BitVec.and_assoc, BitVec.and_not_self]
    exact and_zero
  · intro h
    ext i hi
    have hi := congrArg (fun b => b[i]) h
    simp only [getElem_and, getElem_not, getElem_zero] at *
    revert hi
    cases m[i] <;> cases v[i] <;> simp

/-- The bits of a value are bits of another one. -/
theorem and_not_eq_zero_iff : v &&& ~~~m = 0#w ↔ ∀ (i : ℕ) (hi : i < w), v[i] = true → m[i] = true := by
  constructor
  · intro h i hi hv
    have hbit := congrArg (fun b => b[i]) h
    simpa [hv] using hbit
  · intro h
    ext i hi
    have hbit := h i hi
    simp only [getElem_and, getElem_not, getElem_zero]
    revert hbit
    cases v[i] <;> cases m[i] <;> simp

/-- The bits of a mask of low bits. -/
theorem getLsbD_low {n : ℕ} (h : n < w) (i : ℕ) :
    (1#w <<< n - 1#w).getLsbD i = decide (i < n) := by
  have hpow : 2 ^ n < 2 ^ w := Nat.pow_lt_pow_right (by omega) h
  have hone : (1#w).toNat = 1 := by
    rw [toNat_ofNat, Nat.mod_eq_of_lt (Nat.one_lt_two_pow (by omega))]
  have hshift : (1#w <<< n).toNat = 2 ^ n := by
    rw [toNat_shiftLeft, hone, Nat.shiftLeft_eq, one_mul, Nat.mod_eq_of_lt hpow]
  have hsub : (1#w <<< n - 1#w).toNat = 2 ^ n - 1 := by
    rw [toNat_sub_of_le, hshift, hone]
    rw [le_def, hshift, hone]
    exact Nat.one_le_two_pow
  rw [← testBit_toNat, hsub, Nat.testBit_two_pow_sub_one]

end Mask
