import Geopm.App.PeriodicityDetector
import Geopm.Lib.Repeats

/-!
# The table of the periodicity detector

The table is addressed modulo the size of the history, and an update only writes the distances of
the parts that end with the newest record.

* `cell` : a cell of the table, `cell_setCell_self` and `cell_setCell_of_ne` : what a write does;
* `CellOk` : a distance is zero just when the parts are equal and have been in the history;
* `Filling` : the table in the middle of an update;
* `table_of_filling` : the loops leave every distance that is read later as it should be.
-/

namespace Geopm

open Prog
open List hiding modify
open Nat

namespace EditDistPeriodicityDetector

/-- The cell of the first `i` records and of the `j` records from `m` on. -/
def cell (d : EditDistPeriodicityDetector) (i j m : ℕ) : ℕ := d.dp.getD (d.didx i j m) 0

/-- The table with another cell. -/
def setCell (i j m val : ℕ) (d : EditDistPeriodicityDetector) : EditDistPeriodicityDetector :=
  { d with dp := d.dp.set (d.didx i j m) val }

/-- The number of cells of the table. -/
def numCells (d : EditDistPeriodicityDetector) : ℕ :=
  d.historyBufferSize * d.historyBufferSize * d.historyBufferSize

/-- The indices have the same cell. -/
def SameCell (size i j m i' j' m' : ℕ) : Prop :=
  i ≡ i' [MOD size] ∧ j ≡ j' [MOD size] ∧ m ≡ m' [MOD size]

variable {d : EditDistPeriodicityDetector}

section Cells

variable {i j m i' j' m' val size a b : ℕ}

/-- Two numbers that are less than the divisor apart have different remainders. -/
theorem eq_of_modEq (h : a ≡ b [MOD size]) (hab : a < b + size) (hba : b < a + size) : a = b := by
  rcases Nat.le_total a b with hle | hle
  · have hdvd := (modEq_iff_dvd' hle).mp h
    have hzero := eq_zero_of_dvd_of_lt hdvd (by omega)
    omega
  · have hdvd := (modEq_iff_dvd' hle).mp h.symm
    have hzero := eq_zero_of_dvd_of_lt hdvd (by omega)
    omega

theorem not_succ_modEq (hsize : 2 ≤ size) : ¬ a + 1 ≡ a [MOD size] := by
  intro h
  have heq := eq_of_modEq h (by omega) (by omega)
  omega

theorem digits_inj {x y x' y' : ℕ} (hy : y < size) (hy' : y' < size)
    (h : x * size + y = x' * size + y') : x = x' ∧ y = y' := by
  have hmod := congrArg (· % size) h
  have hdiv := congrArg (· / size) h
  have hpos : 0 < size := zero_lt_of_lt hy
  simp only [mul_add_mod_of_lt, hy, hy'] at hmod
  simp only [Nat.mul_comm _ size, mul_add_div hpos, div_eq_of_lt hy,
    div_eq_of_lt hy', Nat.add_zero] at hdiv
  exact ⟨hdiv, hmod⟩

theorem didx_eq : d.didx i j m =
    ((i % d.historyBufferSize) * d.historyBufferSize + j % d.historyBufferSize) *
      d.historyBufferSize + m % d.historyBufferSize := by
  rw [didx, Nat.add_mul]

theorem didx_lt (hsize : 0 < d.historyBufferSize) : d.didx i j m < d.numCells := by
  have hrow : (i % d.historyBufferSize) * d.historyBufferSize + j % d.historyBufferSize <
      d.historyBufferSize * d.historyBufferSize := by
    have hi := Nat.mul_le_mul_right d.historyBufferSize
      (succ_le_of_lt (mod_lt i hsize))
    have hj := mod_lt j hsize
    rw [succ_mul] at hi
    omega
  have hcell := Nat.mul_le_mul_right d.historyBufferSize (succ_le_of_lt hrow)
  have hm := mod_lt m hsize
  rw [succ_mul] at hcell
  rw [didx_eq, numCells]
  omega

theorem didx_eq_iff (hsize : 0 < d.historyBufferSize) :
    d.didx i j m = d.didx i' j' m' ↔ SameCell d.historyBufferSize i j m i' j' m' := by
  constructor
  · intro h
    rw [didx_eq, didx_eq] at h
    obtain ⟨hrow, hm⟩ := digits_inj (mod_lt m hsize) (mod_lt m' hsize) h
    obtain ⟨hi, hj⟩ := digits_inj (mod_lt j hsize) (mod_lt j' hsize) hrow
    exact ⟨hi, hj, hm⟩
  · rintro ⟨hi, hj, hm⟩
    rw [didx_eq, didx_eq, hi, hj, hm]

theorem dset_eq : dset i j m val = modify (setCell i j m val) := rfl

theorem cell_setCell_self (hsize : 0 < d.historyBufferSize) (hlength : d.dp.length = d.numCells)
    (h : SameCell d.historyBufferSize i j m i' j' m') :
    (d.setCell i j m val).cell i' j' m' = val := by
  have hidx : (d.setCell i j m val).didx i' j' m' = d.didx i j m := ((didx_eq_iff hsize).mpr h).symm
  rw [cell, hidx, setCell, getD_eq_getElem?_getD,
    getElem?_set_self (by rw [hlength]; exact didx_lt hsize)]
  rfl

theorem cell_setCell_of_ne (hsize : 0 < d.historyBufferSize)
    (h : ¬ SameCell d.historyBufferSize i j m i' j' m') :
    (d.setCell i j m val).cell i' j' m' = d.cell i' j' m' := by
  have hidx : d.didx i j m ≠ d.didx i' j' m' := fun heq => h ((didx_eq_iff hsize).mp heq)
  rw [cell, cell, setCell, getD_eq_getElem?_getD, getD_eq_getElem?_getD]
  exact congrArg (·.getD 0) (getElem?_set_ne hidx)

end Cells

/-! ### A distance -/

/-- The detector has recorded the entries `xs`. -/
structure Recorded (size : ℕ) (xs : List ℕ) (d : EditDistPeriodicityDetector) : Prop where
  size_eq : d.historyBufferSize = size
  count_eq : d.recordCount = xs.length
  holds : d.historyBuffer.Holds xs
  maxSize_eq : d.historyBuffer.maxSize = size
  length_eq : d.dp.length = d.numCells

/-- The update after `n` records writes the distance for `i` and `m`, and the distance may be read
from then on. -/
structure InTable (size n i m : ℕ) : Prop where
  pos : 1 ≤ m
  lt : m < n
  recent : n < m + size
  le : i ≤ m
  kept : n < i + size

/-- The distance of the records from `m` up to `n` from the first `i` ones: it is zero when they
end the first `i` ones, and the records that were compared have been in the history. -/
structure CellOk (size : ℕ) (xs : List ℕ) (d : EditDistPeriodicityDetector) (n i m : ℕ) :
    Prop where
  le : d.cell i (n - m) m ≤ n - m
  zero_iff : d.cell i (n - m) m = 0 ↔ n + 1 < i + size ∧ (xs.take n).drop m <:+ xs.take i

/-- The distance that the update before the one after `n` records has left for `i` and `m`. -/
structure PrevOk (xs : List ℕ) (d : EditDistPeriodicityDetector) (n i m : ℕ) : Prop where
  le : d.cell i (n - m - 1) m ≤ n - m - 1
  zero_iff : d.cell i (n - m - 1) m = 0 ↔ (xs.take (n - 1)).drop m <:+ xs.take i

variable {xs : List ℕ}

section Distance

variable {size n i m last : ℕ}

theorem addUint32_of_lt {x y : ℕ} (h : x + y < 2 ^ 32) : addUint32 x y = x + y := mod_eq_of_lt h

/-- The smallest of the three sums. -/
theorem min_distance {up left diag term bound : ℕ} (hup : up ≤ intMax) (hleft : left < bound)
    (hbound : bound ≤ intMax) (hdiag : diag ≤ intMax) (hterm : term ≤ 2) :
    min (addUint32 up 1) (min (addUint32 left 1) (addUint32 diag term)) ≤ bound ∧
      (min (addUint32 up 1) (min (addUint32 left 1) (addUint32 diag term)) = 0 ↔
        term = 0 ∧ diag = 0) := by
  unfold intMax at *
  rw [addUint32_of_lt (by omega), addUint32_of_lt (by omega), addUint32_of_lt (by omega)]
  omega

theorem Recorded.newest (hd : Recorded size xs d) (hsize : 0 < size) (hxs : 0 < xs.length) :
    ∃ last, d.historyBuffer.value (d.historyBuffer.size - 1) = .ok last ∧
      xs[xs.length - 1]? = some last := by
  have hcount := hd.holds.count_eq
  rw [hd.maxSize_eq] at hcount
  unfold CircularBuffer.size
  obtain ⟨last, hvalue, hlast⟩ := hd.holds.value (d.historyBuffer.count - 1) (by omega)
    (by omega)
  refine ⟨last, hvalue, ?_⟩
  rw [← hlast]
  exact congrArg (xs[·]?) (by omega)

theorem Recorded.comparedRec (hd : Recorded size xs d) (hi : 1 ≤ i) (hle : i ≤ xs.length) :
    d.comparedRec i = .ok (if xs.length < i + size then xs[i - 1]? else none) := by
  have hcount := hd.holds.count_eq
  rw [hd.maxSize_eq] at hcount
  unfold EditDistPeriodicityDetector.comparedRec CircularBuffer.size
  rw [hd.count_eq]
  dsimp only
  by_cases hage : xs.length < i + size
  · obtain ⟨x, hvalue, hx⟩ := hd.holds.value
      (d.historyBuffer.count - (xs.length - ((i : ℤ) - 1))) (by omega) (by omega)
    rw [if_pos (by omega), if_pos hage, hvalue]
    refine congrArg Except.ok ?_
    rw [← hx]
    exact congrArg (xs[·]?) (by omega)
  · rw [if_neg (by omega), if_neg hage]

theorem dget_le {i j m : ℕ} (bound : ℕ) (hbound : bound ≤ intMax)
    (h : d.recordCount < i + d.historyBufferSize → d.cell i j m ≤ bound) :
    d.dget i j m ≤ intMax := by
  unfold dget
  split_ifs with hwindow
  · exact (h (by omega)).trans hbound
  · decide

theorem dget_eq_cell {i j m : ℕ} (hi : d.recordCount < i + d.historyBufferSize)
    (hj : j < d.historyBufferSize) (hm : d.recordCount < m + d.historyBufferSize) :
    d.dget i j m = d.cell i j m :=
  if_pos ⟨by omega, hj, by omega⟩

theorem dget_ne_zero {i j m : ℕ} (hi : i + d.historyBufferSize ≤ d.recordCount) :
    d.dget i j m ≠ 0 := by
  unfold dget
  rw [if_neg (by omega)]
  decide

/-- The distance that an update writes, from those that it reads. -/
theorem new_distance (hd : Recorded size xs d) (hsmall : size ≤ intMax)
    (hin : InTable size xs.length i m) (hi : 1 ≤ i) (hlast : xs[xs.length - 1]? = some last)
    (hup : xs.length < i - 1 + size → d.cell (i - 1) (xs.length - m) m ≤ xs.length - m)
    (hleft : PrevOk xs d xs.length i m)
    (hdiag : InTable size xs.length (i - 1) m → PrevOk xs d xs.length (i - 1) m) {term : ℕ}
    (hterm : term = if (if xs.length < i + size then xs[i - 1]? else none) = some last then 0
      else 2) {val : ℕ}
    (hval : val = min (addUint32 (d.dget (i - 1) (xs.length - m) m) 1)
      (min (addUint32 (d.dget i (xs.length - m - 1) m) 1)
        (addUint32 (d.dget (i - 1) (xs.length - m - 1) m) term))) :
    val ≤ xs.length - m ∧ (val = 0 ↔
      xs.length + 1 < i + size ∧ (xs.take xs.length).drop m <:+ xs.take i) := by
  obtain ⟨hm, hlt, hrecent, hle, hkept⟩ := hin
  have hsize := hd.size_eq
  have hcount := hd.count_eq
  rw [if_pos hkept, ← hlast] at hterm
  have hdget : d.dget i (xs.length - m - 1) m ≤ xs.length - m - 1 := by
    rw [dget_eq_cell (by omega) (by omega) (by omega)]
    exact hleft.le
  have hdiagle : d.dget (i - 1) (xs.length - m - 1) m ≤ intMax :=
    dget_le (xs.length - m - 1) (by omega) fun h =>
      (hdiag ⟨hm, hlt, hrecent, by omega, by omega⟩).le
  have hterm₂ : term ≤ 2 := by
    rw [hterm]
    split_ifs <;> omega
  have hmin := min_distance (dget_le _ (by omega) fun h => hup (by omega))
    (Nat.lt_of_le_of_lt hdget (by omega : xs.length - m - 1 < xs.length - m)) (by omega) hdiagle
    hterm₂
  rw [← hval] at hmin
  refine ⟨hmin.1, hmin.2.trans ?_⟩
  have hterm₀ : term = 0 ↔ xs[i - 1]? = xs[xs.length - 1]? := by
    rw [hterm]
    split_ifs with h <;> simp [h]
  by_cases hwindow : xs.length + 1 < i + size
  · have hprev := hdiag ⟨hm, hlt, hrecent, by omega, by omega⟩
    rw [dget_eq_cell (by omega) (by omega) (by omega), hprev.zero_iff, hterm₀,
      and_iff_right hwindow]
    have hstep := List.take_drop_suffix_iff (w := xs) (m := m) (k := xs.length - 1) (i := i - 1)
      (by omega) (by omega) (by omega)
    rw [Nat.sub_add_cancel (by omega), Nat.sub_add_cancel hi] at hstep
    exact hstep.symm
  · have hne : d.dget (i - 1) (xs.length - m - 1) m ≠ 0 := dget_ne_zero (by omega)
    exact ⟨fun h => absurd h.2 hne, fun h => absurd h.1 hwindow⟩

end Distance

/-! ### The loops over the table -/

/-- The table after `n` records. -/
def Table (size : ℕ) (xs : List ℕ) (n : ℕ) (d : EditDistPeriodicityDetector) : Prop :=
  ∀ i m, InTable size n i m → CellOk size xs d n i m

/-- The table in the middle of an update: the distances of the update before are still there, and
those of `done` have been written. -/
structure Filling (size : ℕ) (xs : List ℕ) (done : ℕ → ℕ → Prop)
    (d : EditDistPeriodicityDetector) : Prop where
  recorded : Recorded size xs d
  ready : ∀ i m, InTable size xs.length i m → PrevOk xs d xs.length i m
  filled : ∀ i m, done i m → InTable size xs.length i m → CellOk size xs d xs.length i m

section Loops

variable {size i m last : ℕ} {done : ℕ → ℕ → Prop}

theorem Recorded.setCell (hd : Recorded size xs d) (i j m val : ℕ) :
    Recorded size xs (d.setCell i j m val) :=
  ⟨hd.size_eq, hd.count_eq, hd.holds, hd.maxSize_eq, length_set.trans hd.length_eq⟩

/-- A cell of the update after `n` records is none of those of the update before. -/
theorem not_sameCell_prev {n i' m' : ℕ} (hsize : 2 ≤ size) (hm : m < n) (hrecent : n ≤ m + size)
    (hin : InTable size n i' m') : ¬ SameCell size i (n - m) m i' (n - m' - 1) m' := by
  rintro ⟨-, hj, hmod⟩
  have hlt := hin.lt
  have hrecent' := hin.recent
  obtain rfl := eq_of_modEq hmod (by omega) (by omega)
  have hsucc : n - m = n - m - 1 + 1 := by omega
  rw [hsucc] at hj
  exact not_succ_modEq hsize hj

theorem eq_of_sameCell {n i' m' : ℕ} (him : i ≤ m) (hm : m < n) (hrecent : n ≤ m + size)
    (hkept : n ≤ i + size) (hin : InTable size n i' m')
    (h : SameCell size i (n - m) m i' (n - m') m') : i = i' ∧ m = m' := by
  obtain ⟨hi, -, hmod⟩ := h
  obtain ⟨-, hlt, hrecent', hle', hkept'⟩ := hin
  exact ⟨eq_of_modEq hi (by omega) (by omega), eq_of_modEq hmod (by omega) (by omega)⟩

theorem Filling.setCell (hd : Filling size xs done d) (hsize : 2 ≤ size) (him : i ≤ m)
    (hm : m < xs.length) (hrecent : xs.length ≤ m + size)
    (hkept : ∀ i' m', done i' m' ∨ i' = i ∧ m' = m → InTable size xs.length i' m' →
      xs.length ≤ i + size) (val : ℕ)
    (hval : InTable size xs.length i m → val ≤ xs.length - m ∧ (val = 0 ↔
      xs.length + 1 < i + size ∧ (xs.take xs.length).drop m <:+ xs.take i)) :
    Filling size xs (fun i' m' => done i' m' ∨ i' = i ∧ m' = m)
      (d.setCell i (xs.length - m) m val) := by
  have hpos : 0 < d.historyBufferSize := by
    rw [hd.recorded.size_eq]
    omega
  refine ⟨hd.recorded.setCell .., fun i' m' hin => ?_, fun i' m' hdone hin => ?_⟩
  · have hcell : (d.setCell i (xs.length - m) m val).cell i' (xs.length - m' - 1) m' =
        d.cell i' (xs.length - m' - 1) m' := by
      refine cell_setCell_of_ne hpos ?_
      rw [hd.recorded.size_eq]
      exact not_sameCell_prev hsize hm hrecent hin
    have hprev := hd.ready i' m' hin
    exact ⟨hcell ▸ hprev.le, hcell ▸ hprev.zero_iff⟩
  · by_cases hsame : SameCell size i (xs.length - m) m i' (xs.length - m') m'
    · obtain ⟨rfl, rfl⟩ := eq_of_sameCell him hm hrecent (hkept _ _ hdone hin) hin hsame
      have hcell : (d.setCell i (xs.length - m) m val).cell i (xs.length - m) m = val :=
        cell_setCell_self hpos hd.recorded.length_eq (hd.recorded.size_eq ▸ hsame)
      have hnew := hval hin
      rw [← hcell] at hnew
      exact ⟨hnew.1, hnew.2⟩
    · have hcell : (d.setCell i (xs.length - m) m val).cell i' (xs.length - m') m' =
          d.cell i' (xs.length - m') m' := by
        refine cell_setCell_of_ne hpos ?_
        rw [hd.recorded.size_eq]
        exact hsame
      have hold : done i' m' := by
        refine hdone.resolve_right ?_
        rintro ⟨rfl, rfl⟩
        exact hsame ⟨rfl, rfl, rfl⟩
      have hok := hd.filled i' m' hold hin
      exact ⟨hcell ▸ hok.le, hcell ▸ hok.zero_iff⟩

theorem Filling.fillCell (hd : Filling size xs done d) (hsize : 2 ≤ size) (hsmall : size ≤ intMax)
    (hlast : xs[xs.length - 1]? = some last) (hi : 1 ≤ i) (him : i ≤ m) (hm : m < xs.length)
    (hrecent : xs.length ≤ m + size) (hkept : xs.length ≤ i + size)
    (hprev : xs.length < i - 1 + size → done (i - 1) m) :
    wp (fillCell last m i) (fun _ => Filling size xs fun i' m' => done i' m' ∨ i' = i ∧ m' = m)
      (fun _ _ => False) d := by
  unfold EditDistPeriodicityDetector.fillCell
  rw [wp_bind, wp_get, wp_bind]
  refine wp_ret (hd.recorded.comparedRec hi (by omega)) ?_
  dsimp only
  rw [dset_eq, wp_modify, hd.recorded.count_eq]
  refine hd.setCell hsize him hm hrecent (fun _ _ _ _ => hkept) _ fun hin => ?_
  refine new_distance hd.recorded hsmall hin hi hlast (fun h => ?_) (hd.ready i m hin)
    (fun hdiag => hd.ready _ _ hdiag) rfl rfl
  refine (hd.filled _ _ (hprev h) ?_).le
  exact ⟨hin.pos, hin.lt, hin.recent, by omega, h⟩

theorem mem_of_indices_eq {start stop x k : ℕ} {pre post : List ℕ}
    (h : indices start stop = pre ++ x :: post) (hk : start ≤ k) (hkx : k < x) : k ∈ pre := by
  have hx : x ∈ indices start stop := h ▸ mem_append_right _ mem_cons_self
  have hmem : k ∈ indices start stop := mem_indices.mpr ⟨hk, hkx.trans (mem_indices.mp hx).2⟩
  have hsorted : (indices start stop).Pairwise (· < ·) := pairwise_lt_range'
  rw [h] at hmem hsorted
  rcases mem_append.mp hmem with hpre | hpost
  · exact hpre
  · rcases mem_cons.mp hpost with rfl | hpost
    · exact absurd hkx (Nat.lt_irrefl _)
    · have hlt := (pairwise_cons.mp (pairwise_append.mp hsorted).2.1).1 k hpost
      omega

theorem clear_filling (hd : Recorded size xs d) (htable : Table size xs (xs.length - 1) d)
    (hsize : 2 ≤ size) :
    wp ((indices (xs.length - size) xs.length).forM fun ii => dset ii 0 (xs.length - 1) 0)
      (fun _ => Filling size xs fun _ _ => False) (fun _ _ => False) d := by
  refine wp_mono (wp_forM_done (I := fun pre d' => Recorded size xs d' ∧
      (∀ i ∈ pre, d'.cell i 0 (xs.length - 1) = 0) ∧
      ∀ i j m, ¬ m ≡ xs.length - 1 [MOD size] → d'.cell i j m = d.cell i j m)
    ⟨hd, nofun, fun _ _ _ _ => rfl⟩ ?_) ?_ fun _ _ h => h
  rotate_left
  · rintro - d' ⟨hd', hzero, hkeep⟩
    refine ⟨hd', fun i m hin => ?_, fun _ _ h => h.elim⟩
    obtain ⟨hm, hlt, hrecent, hle, hkept⟩ := hin
    by_cases hnewest : m = xs.length - 1
    · subst hnewest
      have hnone : xs.length - (xs.length - 1) - 1 = 0 := by omega
      have hcell := hzero i (mem_indices.mpr ⟨by omega, by omega⟩)
      refine ⟨by rw [hnone, hcell], ?_⟩
      rw [hnone, hcell, drop_eq_nil_of_le (length_take_le _ _)]
      exact iff_of_true rfl (nil_suffix)
    · have hcell := hkeep i (xs.length - 1 - m) m fun h =>
        hnewest (eq_of_modEq h (by omega) (by omega))
      have hok := htable i m ⟨hm, by omega, by omega, hle, by omega⟩
      have hsub : xs.length - m - 1 = xs.length - 1 - m := by omega
      refine ⟨by rw [hsub, hcell]; exact hok.le, ?_⟩
      rw [hsub, hcell, hok.zero_iff, and_iff_right (by omega)]
  · rintro pre ii post - d' ⟨hd', hzero, hkeep⟩
    have hpos : 0 < d'.historyBufferSize := by
      rw [hd'.size_eq]
      omega
    rw [dset_eq, wp_modify]
    refine ⟨hd'.setCell .., fun i hi => ?_, fun i j m hm => ?_⟩
    · by_cases hsame : SameCell d'.historyBufferSize ii 0 (xs.length - 1) i 0 (xs.length - 1)
      · exact cell_setCell_self hpos hd'.length_eq hsame
      · rw [cell_setCell_of_ne hpos hsame]
        refine hzero i ((mem_append.mp hi).resolve_right fun h => hsame ?_)
        rw [mem_singleton.mp h]
        exact ⟨rfl, rfl, rfl⟩
    · rw [cell_setCell_of_ne hpos fun hsame => hm ?_, hkeep i j m hm]
      rw [hd'.size_eq] at hsame
      exact hsame.2.2.symm

theorem edge_filling (hd : Filling size xs (fun _ _ => False) d) (hsize : 2 ≤ size) :
    wp ((indices (xs.length - size) xs.length).forM fun mm =>
        dset 0 (xs.length - mm) mm (xs.length - mm))
      (fun _ => Filling size xs fun i _ => i = 0) (fun _ _ => False) d := by
  refine wp_mono_ok (wp_forM_done (I := fun pre => Filling size xs fun i m => i = 0 ∧ m ∈ pre)
    ⟨hd.recorded, hd.ready, fun _ _ h => absurd h.2 not_mem_nil⟩ ?_) fun _ d' hd' => ?_
  rotate_left
  · refine ⟨hd'.recorded, hd'.ready, fun i m hi hin => hd'.filled i m ⟨hi, ?_⟩ hin⟩
    have hlt := hin.lt
    have hrecent := hin.recent
    exact mem_indices.mpr ⟨by omega, hlt⟩
  · intro pre mm post hpre d' hd'
    have hmm : mm ∈ indices (xs.length - size) xs.length :=
      hpre ▸ mem_append_right _ mem_cons_self
    obtain ⟨hlow, hlt⟩ := mem_indices.mp hmm
    rw [dset_eq, wp_modify]
    have hset := hd'.setCell (i := 0) (m := mm) hsize (Nat.zero_le _) hlt (by omega) ?_
      (xs.length - mm) fun _ => ⟨Nat.le_refl _, ?_⟩
    · refine ⟨hset.recorded, hset.ready, fun i m hi hin => hset.filled i m ?_ hin⟩
      obtain ⟨rfl, hmem⟩ := hi
      exact (mem_append.mp hmem).imp (fun h => ⟨rfl, h⟩) fun h =>
        ⟨rfl, mem_singleton.mp h⟩
    · rintro i' m' hdone hin
      have hkept := hin.kept
      rcases hdone with ⟨rfl, -⟩ | ⟨rfl, -⟩ <;> omega
    · refine iff_of_false (by omega) fun h => ?_
      exact List.not_suffix_take_zero hlt (Nat.le_refl _) h.2

theorem Filling.mono {done' : ℕ → ℕ → Prop} (hd : Filling size xs done d)
    (h : ∀ i m, done' i m → done i m) : Filling size xs done' d :=
  ⟨hd.recorded, hd.ready, fun i m hdone hin => hd.filled i m (h i m hdone) hin⟩

/-- The loops over the table: the parts that start at `m` are compared with the first `i` records,
for every `i` up to `m`. -/
theorem table_of_filling (hd : Filling size xs (fun i _ => i = 0) d) (hsize : 2 ≤ size)
    (hsmall : size ≤ intMax) (hlast : xs[xs.length - 1]? = some last) :
    wp ((indices (max 1 (xs.length - size)) xs.length).forM fun mm =>
        (indices (max 1 (xs.length - size)) (mm + 1)).forM fun ii => fillCell last mm ii)
      (fun _ d' => Recorded size xs d' ∧ Table size xs xs.length d') (fun _ _ => False) d := by
  refine wp_mono_ok (wp_forM_done (I := fun pre => Filling size xs fun i m =>
      i = 0 ∨ m ∈ pre ∧ i ∈ indices (max 1 (xs.length - size)) (m + 1))
    (hd.mono fun i m h => h.resolve_right fun h => not_mem_nil h.1) ?_) fun _ d' hd' => ?_
  rotate_left
  · refine ⟨hd'.recorded, fun i m hin => hd'.filled i m ?_ hin⟩
    obtain ⟨hm, hlt, hrecent, hle, hkept⟩ := hin
    rcases Nat.eq_zero_or_pos i with hi | hi
    · exact .inl hi
    · exact .inr ⟨mem_indices.mpr ⟨by omega, hlt⟩, mem_indices.mpr ⟨by omega, by omega⟩⟩
  · intro pre mm post hpre d' hd'
    have hmm : mm ∈ indices (max 1 (xs.length - size)) xs.length :=
      hpre ▸ mem_append_right _ mem_cons_self
    obtain ⟨hlow, hlt⟩ := mem_indices.mp hmm
    refine wp_mono_ok (wp_forM_done (I := fun ipre => Filling size xs fun i m =>
        (i = 0 ∨ m ∈ pre ∧ i ∈ indices (max 1 (xs.length - size)) (m + 1)) ∨ m = mm ∧ i ∈ ipre)
      (hd'.mono fun i m h => h.resolve_right fun h => not_mem_nil h.2) ?_)
      fun _ d'' hd'' => ?_
    rotate_left
    · refine hd''.mono fun i m h => ?_
      rcases h with hi | ⟨hm, hi⟩
      · exact .inl (.inl hi)
      · rcases mem_append.mp hm with hm | hm
        · exact .inl (.inr ⟨hm, hi⟩)
        · obtain rfl := mem_singleton.mp hm
          exact .inr ⟨rfl, hi⟩
    · intro ipre ii ipost hipre d'' hd''
      have hii : ii ∈ indices (max 1 (xs.length - size)) (mm + 1) :=
        hipre ▸ mem_append_right _ mem_cons_self
      obtain ⟨hlow', hle⟩ := mem_indices.mp hii
      refine wp_mono_ok (hd''.fillCell hsize hsmall hlast (by omega) (by omega) hlt (by omega)
        (by omega) fun hprev => ?_) fun _ t ht => ht.mono fun i m h => ?_
      · -- the distance for one record less has just been written, or is that of the empty part
        rcases Nat.eq_zero_or_pos (ii - 1) with hzero | hpos
        · exact .inl (.inl hzero)
        · exact .inr ⟨rfl, mem_of_indices_eq hipre (by omega) (by omega)⟩
      · rcases h with h | ⟨hm, hi⟩
        · exact .inl (.inl h)
        · rcases mem_append.mp hi with hi | hi
          · exact .inl (.inr ⟨hm, hi⟩)
          · exact .inr ⟨mem_singleton.mp hi, hm⟩

end Loops

end EditDistPeriodicityDetector

end Geopm
