import Mathlib

/-!
# Sets of CPUs in buffers

A set of CPUs of a dynamic size is a buffer of bytes, which is accessed in words of eight bytes.  An
access beyond the buffer has no result.

* `Buffer`, `allocSize` : buffers, and `CPU_ALLOC_SIZE`;
* `zero`, `copy`, `assign`, `count` : `CPU_ZERO_S`, `memcpy`, `CPU_SET_S` and `CPU_CLR_S`, and
  `CPU_COUNT_S`;
* `assignRange_eq`, `assignRange_eq_none` : a loop that sets or clears consecutive CPUs.
-/

namespace CpuSet

open List

/-- A buffer of a size in bytes, with its bits. -/
structure Buffer where
  size : ℕ
  bit : ℕ → Bool

/-- `CPU_ALLOC_SIZE`. -/
def allocSize (count : ℕ) : ℕ := (count + 63) / 64 * 8

/-- `CPU_ZERO_S`. -/
def zero (setsize : ℕ) (b : Buffer) : Option Buffer :=
  if setsize ≤ b.size then some ⟨b.size, fun i => if i < 8 * setsize then false else b.bit i⟩
  else none

/-- `memcpy` of a number of bytes. -/
def copy (bytes : ℕ) (src dst : Buffer) : Option Buffer :=
  if bytes ≤ src.size ∧ bytes ≤ dst.size then
    some ⟨dst.size, fun i => if i < 8 * bytes then src.bit i else dst.bit i⟩
  else none

/-- `CPU_SET_S` and `CPU_CLR_S`: the word of a CPU that is within the size is accessed. -/
def assign (value : Bool) (setsize : ℕ) (b : Buffer) (cpu : ℕ) : Option Buffer :=
  if cpu / 8 < setsize then
    if 8 * (cpu / 64 + 1) ≤ b.size then some ⟨b.size, Function.update b.bit cpu value⟩ else none
  else some b

/-- `CPU_COUNT_S`. -/
def count (setsize : ℕ) (b : Buffer) : Option ℕ :=
  if setsize ≤ b.size then some ((List.range (8 * setsize)).countP b.bit) else none

/-- A loop over the CPUs from `lo` up to `hi`. -/
def assignRange (value : Bool) (setsize lo hi : ℕ) (b : Buffer) : Option Buffer :=
  (List.range' lo (hi - lo)).foldlM (assign value setsize) b

variable {b : Buffer} {value : Bool} {n lo hi : ℕ}

/-- A CPU within the words of a buffer. -/
theorem assign_eq (h : allocSize n ≤ b.size) (cpu : ℕ) : assign value (allocSize n) b cpu =
    some ⟨b.size, fun i => if i = cpu ∧ i < 8 * allocSize n then value else b.bit i⟩ := by
  rw [assign]
  by_cases hcpu : cpu / 8 < allocSize n
  · rw [if_pos hcpu, if_pos]
    · congr 2
      funext i
      by_cases hi : i = cpu
      · have hlt : cpu < 8 * allocSize n := by omega
        rw [hi, Function.update_self, if_pos ⟨rfl, hlt⟩]
      · rw [Function.update_of_ne hi, if_neg fun h => hi h.1]
    · unfold allocSize at hcpu h
      omega
  · rw [if_neg hcpu]
    have hout : ∀ i, ¬ (i = cpu ∧ i < 8 * allocSize n) := by omega
    simp only [hout, if_false]

/-- A CPU beyond a buffer. -/
theorem assign_eq_none (hn : 0 < n) (h : b.size < allocSize n) :
    assign value (allocSize n) b (n - 1) = none := by
  have hcpu : (n - 1) / 8 < allocSize n := by
    unfold allocSize
    omega
  have hsize : b.size < 8 * ((n - 1) / 64 + 1) := by
    unfold allocSize at h
    omega
  rw [assign, if_pos hcpu, if_neg hsize.not_ge]

/-- The loop, in a buffer that has the words. -/
theorem assignRange_eq (h : allocSize n ≤ b.size) (lo hi : ℕ) :
    assignRange value (allocSize n) lo hi b =
      some ⟨b.size, fun i =>
        if lo ≤ i ∧ i < hi ∧ i < 8 * allocSize n then value else b.bit i⟩ := by
  rw [assignRange]
  generalize hlength : hi - lo = length
  induction length generalizing lo b with
  | zero =>
    have hempty : ∀ i, ¬ (lo ≤ i ∧ i < hi ∧ i < 8 * allocSize n) := by omega
    simp only [hempty, if_false]
    rfl
  | succ length ih =>
    rw [range'_succ, foldlM_cons, assign_eq h]
    refine (ih (b := ⟨b.size, fun i => if i = lo ∧ i < 8 * allocSize n then value else b.bit i⟩) h
      (lo + 1) (by omega)).trans ?_
    congr 2
    funext i
    dsimp only
    by_cases hrest : lo + 1 ≤ i ∧ i < hi ∧ i < 8 * allocSize n
    · rw [if_pos hrest, if_pos (by omega)]
    · rw [if_neg hrest]
      by_cases hlo : i = lo ∧ i < 8 * allocSize n
      · rw [if_pos hlo, if_pos (by omega)]
      · rw [if_neg hlo, if_neg (by omega)]

/-- The size of a buffer stays. -/
theorem size_of_assign {b' : Buffer} {setsize cpu : ℕ} (h : assign value setsize b cpu = some b') :
    b'.size = b.size := by
  rw [assign] at h
  split_ifs at h <;> cases h <;> rfl

theorem size_of_foldlM {setsize : ℕ} {cpus : List ℕ} {b b' : Buffer}
    (h : cpus.foldlM (assign value setsize) b = some b') : b'.size = b.size := by
  induction cpus generalizing b with
  | nil => exact congrArg Buffer.size (Option.some.inj h).symm
  | cons cpu cpus ih =>
    obtain ⟨b₁, hb₁, h⟩ := Option.bind_eq_some_iff.mp h
    exact (ih h).trans (size_of_assign hb₁)

/-- A loop over CPUs whose words a buffer has, whatever size is passed. -/
theorem exists_assignRange (value : Bool) (setsize lo : ℕ) (h : allocSize hi ≤ b.size) :
    ∃ b', assignRange value setsize lo hi b = some b' := by
  rw [assignRange]
  generalize hlength : hi - lo = length
  induction length generalizing lo b with
  | zero => exact ⟨b, rfl⟩
  | succ length ih =>
    rw [range'_succ, foldlM_cons]
    have hword : 8 * (lo / 64 + 1) ≤ b.size := by
      unfold allocSize at h
      omega
    by_cases hlo : lo / 8 < setsize
    · rw [assign, if_pos hlo, if_pos hword]
      exact ih (b := ⟨b.size, Function.update b.bit lo value⟩) (lo + 1) h (by omega)
    · rw [assign, if_neg hlo]
      exact ih (lo + 1) h (by omega)

/-- How many CPUs are in a buffer of the size. -/
theorem count_eq_zero_iff (h : n ≤ b.size) :
    ∃ num, count n b = some num ∧ (num = 0 ↔ ∀ i < 8 * n, b.bit i = false) := by
  refine ⟨_, if_pos h, ?_⟩
  simp [countP_eq_zero]

/-- The loop over all CPUs, in a buffer that has not the words for them. -/
theorem assignRange_eq_none (hn : 0 < n) (h : b.size < allocSize n) :
    assignRange value (allocSize n) 0 n b = none := by
  obtain ⟨m, rfl⟩ := Nat.exists_eq_succ_of_ne_zero hn.ne'
  rw [assignRange, Nat.sub_zero, Nat.succ_eq_add_one, range'_1_concat, foldlM_append]
  cases hloop : (List.range' 0 m).foldlM (assign value (allocSize (m + 1))) b with
  | none => rfl
  | some b' =>
    have hsize : b'.size < allocSize (m + 1) := (size_of_foldlM hloop).symm ▸ h
    have hnone : assign value (allocSize (m + 1)) b' (0 + m) = none := by
      rw [Nat.zero_add]
      exact assign_eq_none hn hsize
    change List.foldlM _ b' [0 + m] = none
    rw [foldlM_cons, hnone]
    rfl

end CpuSet
