import Mathlib

/-!
# Even and proportional shares

An amount is handed out to parties that have room for a limited part of it each: first an even part,
then the rest in proportion to the room that is left.

* `Shares.share` : what a party receives;
* `Shares.Feasible` : each party has room for the even part, and all of them have room for the
  amount, which covers the even parts;
* `Shares.sum_share` : everything is handed out;
* `Shares.share_nonneg`, `Shares.share_le` : nobody gives anything up, or receives more than there
  is room for.
-/

namespace Shares

open Finset
open Fintype (card)

variable {ι K : Type*} [Fintype ι] [Field K]

/-- The room that is left after the even part. -/
def left (room : ι → K) (even : K) : K := ∑ i, (room i - even)

section Sums

variable {room : ι → K} {even : K}

theorem left_eq : left room even = ∑ i, room i - card ι * even := by
  rw [left, sum_sub_distrib, sum_const, card_univ, nsmul_eq_mul]

/-- The parts of the rest are all of it, when there is room left. -/
theorem sum_part (h : left room even ≠ 0) (rest : K) :
    ∑ i, (room i - even) / left room even * rest = rest := by
  rw [← sum_mul, ← sum_div]
  change left room even / left room even * rest = rest
  rw [div_self h, one_mul]

end Sums

variable [LinearOrder K]

/-- The even part, and the part of the rest that is in proportion to the room that is left; when
there is none, all of the rest. -/
def share (room : ι → K) (even rest : K) (i : ι) : K :=
  even + (if left room even ≠ 0 then (room i - even) / left room even else 1) * rest

/-- Each party has room for the even part, and all of them have room for the amount, which covers
the even parts. -/
structure Feasible (room : ι → K) (even amount : K) : Prop where
  nonneg : 0 ≤ even
  le_room : ∀ i, even ≤ room i
  covered : card ι * even ≤ amount
  le_sum : amount ≤ ∑ i, room i

section Bounds

variable {room : ι → K} {even amount : K} [IsStrictOrderedRing K]

section

variable (h : Feasible room even amount)
include h

/-- The rest fits in the room that is left. -/
theorem Feasible.rest_le :
    amount - card ι * even ≤ left room even := by
  rw [left_eq]
  linarith [h.le_sum]

/-- There is no rest when there is no room left. -/
theorem Feasible.rest_eq_zero (hleft : left room even = 0) :
    amount - card ι * even = 0 := by
  have hle := h.rest_le
  rw [hleft] at hle
  linarith [h.covered]

/-- Everything is handed out. -/
theorem sum_share :
    ∑ i, share room even (amount - card ι * even) i = amount := by
  unfold share
  rw [sum_add_distrib, sum_const, card_univ, nsmul_eq_mul]
  by_cases hleft : left room even = 0
  · simp only [h.rest_eq_zero hleft, mul_zero, sum_const_zero]
    linarith [h.rest_eq_zero hleft]
  · simp only [if_pos hleft, sum_part hleft]
    ring

/-- A party's part of the rest is not negative, and there is room for it. -/
theorem Feasible.part_mem (hleft : left room even ≠ 0) (i : ι) :
    0 ≤ (room i - even) / left room even * (amount - card ι * even) ∧
      (room i - even) / left room even * (amount - card ι * even) ≤ room i - even := by
  have hroom : 0 ≤ room i - even := by linarith [h.le_room i]
  have hrest : 0 ≤ amount - card ι * even := by linarith [h.covered]
  have hpos : 0 < left room even := lt_of_le_of_ne (hrest.trans h.rest_le) hleft.symm
  refine ⟨mul_nonneg (div_nonneg hroom hpos.le) hrest, ?_⟩
  calc (room i - even) / left room even * (amount - card ι * even)
      ≤ (room i - even) / left room even * left room even :=
        mul_le_mul_of_nonneg_left h.rest_le (div_nonneg hroom hpos.le)
    _ = room i - even := div_mul_cancel₀ _ hleft

theorem share_nonneg (i : ι) :
    0 ≤ share room even (amount - card ι * even) i := by
  unfold share
  by_cases hleft : left room even = 0
  · rw [h.rest_eq_zero hleft, mul_zero, add_zero]
    exact h.nonneg
  · rw [if_pos hleft]
    linarith [h.nonneg, (h.part_mem hleft i).1]

theorem share_le (i : ι) :
    share room even (amount - card ι * even) i ≤ room i := by
  unfold share
  by_cases hleft : left room even = 0
  · rw [h.rest_eq_zero hleft, mul_zero, add_zero]
    exact h.le_room i
  · rw [if_pos hleft]
    linarith [(h.part_mem hleft i).2]

end

end Bounds

end Shares
