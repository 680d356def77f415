import Mathlib

/-!
# Doubles

* `Double` : the values of a `double`, with the numbers that are exact;
* `Double.eq` : the comparison `==`, under which the two zeros are equal and NaN equals nothing;
* `Double.lt` : the comparison `<`;
* `Double.Same` : the same double, but for the sign of a zero;
* `Double.sum`, `Double.sum_replicate` : sums, with exact arithmetic.
-/

namespace Geopm

/-- A `double`.  The zero of `num` is the positive one. -/
inductive Double where
  | nan
  | infinity (negative : Bool)
  | negZero
  | num (x : ℚ)
deriving DecidableEq

namespace Double

/-- `std::isnan`. -/
def isNan : Double → Bool
  | nan => true
  | _ => false

/-- `std::isfinite`. -/
def isFinite : Double → Bool
  | negZero | num _ => true
  | _ => false

/-- The number without the sign of a zero. -/
def unsigned : Double → Double
  | negZero => num 0
  | a => a

/-- `a == b`. -/
def eq (a b : Double) : Bool := !a.isNan && decide (a.unsigned = b.unsigned)

/-- `a < b`. -/
def lt (a b : Double) : Bool :=
  !a.isNan && !b.isNan && match a.unsigned, b.unsigned with
    | infinity negative, infinity negative' => negative && !negative'
    | infinity negative, _ => negative
    | _, infinity negative => !negative
    | num x, num y => decide (x < y)
    | _, _ => false

@[simp] theorem eq_nan (a : Double) : a.eq nan = false := by
  cases a <;> rfl

/-- A finite double equals itself, with or without the sign of a zero. -/
theorem eq_unsigned {x : Double} (h : x.isFinite = true) : x.unsigned.eq x = true := by
  cases x with
  | nan => cases h
  | infinity => cases h
  | negZero => rfl
  | num x => exact decide_eq_true rfl

theorem eq_self {x : Double} (h : x.isFinite = true) : x.eq x = true := by
  cases x with
  | nan => cases h
  | infinity => cases h
  | negZero => rfl
  | num x => exact decide_eq_true rfl

@[simp] theorem nan_eq (a : Double) : nan.eq a = false := rfl

theorem eq_self_of_not_nan {x : Double} (h : x.isNan = false) : x.eq x = true := by
  simp [eq, h]

theorem not_nan_of_eq {a b : Double} (h : a.eq b = true) : a.isNan = false ∧ b.isNan = false := by
  cases b with
  | nan => simp at h
  | infinity => cases a <;> first | exact ⟨rfl, rfl⟩ | cases h
  | negZero => cases a <;> first | exact ⟨rfl, rfl⟩ | cases h
  | num => cases a <;> first | exact ⟨rfl, rfl⟩ | cases h

theorem eq_trans {a b c : Double} (hab : a.eq b = true) (hbc : b.eq c = true) :
    a.eq c = true := by
  simp only [eq, Bool.and_eq_true, Bool.not_eq_true', decide_eq_true_eq] at hab hbc ⊢
  exact ⟨hab.1, hab.2.trans hbc.2⟩

/-! ### The same double -/

/-- The two are the same, but for the sign of a zero. -/
def Same (a b : Double) : Prop := a.unsigned = b.unsigned

instance (a b : Double) : Decidable (a.Same b) := inferInstanceAs (Decidable (_ = _))

theorem same_equivalence : Equivalence Same :=
  ⟨fun _ => rfl, Eq.symm, Eq.trans⟩

theorem same_of_eq {a b : Double} (h : a.eq b = true) : a.Same b := by
  rw [eq, Bool.and_eq_true, decide_eq_true_eq] at h
  exact h.2

/-- The `==` of vectors. -/
def eqVec : List Double → List Double → Bool
  | [], [] => true
  | a :: as, b :: bs => a.eq b && eqVec as bs
  | _, _ => false

/-- A vector of NaN equals nothing, unless it is empty. -/
theorem eqVec_nan {n : ℕ} (hn : n ≠ 0) (as : List Double) :
    eqVec as (List.replicate n nan) = false := by
  obtain ⟨m, rfl⟩ := Nat.exists_eq_succ_of_ne_zero hn
  cases as with
  | nil => rfl
  | cons a as =>
    rw [List.replicate_succ, eqVec, eq_nan]
    rfl

/-- Two vectors are the same, but for the signs of zeros. -/
def SameVec (as bs : List Double) : Prop := as.map unsigned = bs.map unsigned

instance (as bs : List Double) : Decidable (SameVec as bs) := inferInstanceAs (Decidable (_ = _))

theorem sameVec_equivalence : Equivalence SameVec :=
  ⟨fun _ => rfl, Eq.symm, Eq.trans⟩

theorem sameVec_of_eqVec {as bs : List Double} (h : eqVec as bs = true) : SameVec as bs := by
  induction as generalizing bs with
  | nil =>
    cases bs with
    | nil => rfl
    | cons b bs => cases h
  | cons a as ih =>
    cases bs with
    | nil => cases h
    | cons b bs =>
      rw [eqVec, Bool.and_eq_true] at h
      have hhead : a.unsigned = b.unsigned := same_of_eq h.1
      have htail : as.map unsigned = bs.map unsigned := ih h.2
      rw [SameVec, List.map_cons, List.map_cons, hhead, htail]

theorem sameVec_replicate {a b : Double} (h : a.Same b) (n : ℕ) :
    SameVec (List.replicate n a) (List.replicate n b) := by
  have hunsigned : a.unsigned = b.unsigned := h
  rw [SameVec, List.map_replicate, List.map_replicate, hunsigned]

/-- NaN equals nothing. -/
theorem nan_eqVec {n : ℕ} (hn : n ≠ 0) (bs : List Double) :
    eqVec (List.replicate n nan) bs = false := by
  obtain ⟨m, rfl⟩ := Nat.exists_eq_succ_of_ne_zero hn
  cases bs <;> rfl

/-! ### Arithmetic -/

/-- `a + b`, with exact sums. -/
def add (a b : Double) : Double :=
  if a = negZero ∧ b = negZero then negZero
  else match a.unsigned, b.unsigned with
    | infinity negative, infinity negative' => if negative = negative' then infinity negative else nan
    | infinity negative, num _ => infinity negative
    | num _, infinity negative => infinity negative
    | num x, num y => num (x + y)
    | _, _ => nan

/-- `n * a` for a positive number `n`, with exact products. -/
def mulNat (n : ℕ) : Double → Double
  | num x => num (n * x)
  | a => a

/-- `a / n` for a positive number `n`, with exact quotients. -/
def divNat (n : ℕ) : Double → Double
  | num x => num (x / n)
  | a => a

/-- The sum of a vector. -/
def sum (as : List Double) : Double := as.foldr add (num 0)

theorem unsigned_add (a b : Double) : (add a b).unsigned = add a.unsigned b.unsigned := by
  cases a with
  | infinity negative =>
    cases b with
    | infinity negative' =>
      by_cases h : negative = negative'
      · simp [add, unsigned, h]
      · simp [add, unsigned, h]
    | _ => simp [add, unsigned]
  | _ => cases b <;> simp [add, unsigned]

theorem add_congr {a a' b b' : Double} (ha : a.Same a') (hb : b.Same b') :
    (add a b).Same (add a' b') := by
  rw [Same, unsigned_add, unsigned_add, ha, hb]

/-- The sum of a number of equal doubles. -/
theorem sum_replicate {n : ℕ} (hn : 0 < n) (a : Double) :
    (sum (List.replicate n a)).Same (mulNat n a) := by
  induction n, hn using Nat.le_induction with
  | base => cases a <;> simp [sum, add, mulNat, Same, unsigned]
  | succ n hn ih =>
    have hsum : (sum (List.replicate (n + 1) a)).Same (add a (mulNat n a)) :=
      add_congr rfl ih
    refine hsum.trans ?_
    cases a with
    | num x =>
      have hmul : x + n * x = (n + 1 : ℕ) * x := by
        push_cast
        ring
      simp [add, mulNat, unsigned, hmul]
    | nan => rfl
    | infinity negative => simp [add, mulNat, unsigned]
    | negZero => rfl

end Double

end Geopm
