import Geopm.App.CircularBuffer

/-!
# Periodicity of the region entries

* `EditDistPeriodicityDetector` : the last entered regions, and the table of the edit distances
  between the end of the history and its parts;
* `EditDistPeriodicityDetector.update` : the method, with its exceptions;
* `update_spec` : a detector with a history raises none.

The counters are not bounded.  The distances are `uint32_t`.
-/

namespace Geopm

open Prog

/-- The largest `int`. -/
def intMax : ℕ := 0x7fffffff

/-- The sum of two `uint32_t`. -/
def addUint32 (x y : ℕ) : ℕ := (x + y) % 2 ^ 32

/-- A `uint32_t` stored in an `int`. -/
def toInt32 (x : ℕ) : ℤ := if x ≤ intMax then x else (x : ℤ) - 2 ^ 32

/-- The indices of a loop from `start` up to, and without, `stop`. -/
def indices (start stop : ℕ) : List ℕ := List.range' start (stop - start)

/-- The members of `EditDistPeriodicityDetector`. -/
structure EditDistPeriodicityDetector where
  historyBuffer : CircularBuffer ℕ
  historyBufferSize : ℕ
  period : ℤ := -1
  score : ℤ := -1
  recordCount : ℕ := 0
  dp : List ℕ
deriving Repr

namespace EditDistPeriodicityDetector

/-- The constructor.  The number of cells of the table is an `int`: from the size 1291 on it does
not fit, which is undefined behaviour and appears to `std::vector` as a negative size up to 1625. -/
def make (historyBufferSize : ℤ) : Except Exception EditDistPeriodicityDetector :=
  let numCells := historyBufferSize * historyBufferSize * historyBufferSize
  if numCells < 0 ∨ intMax < numCells then
    .error ⟨"cannot create std::vector larger than max_size()", [], .runtime⟩
  else
    .ok { historyBuffer := CircularBuffer.make historyBufferSize.toNat
          historyBufferSize := historyBufferSize.toNat
          dp := List.replicate numCells.toNat 0 }

/-- `Didx`. -/
def didx (d : EditDistPeriodicityDetector) (ii jj mm : ℕ) : ℕ :=
  (ii % d.historyBufferSize) * d.historyBufferSize * d.historyBufferSize +
    (jj % d.historyBufferSize) * d.historyBufferSize + (mm % d.historyBufferSize)

/-- `Dset`. -/
def dset (ii jj mm val : ℕ) : EStateM Exception EditDistPeriodicityDetector Unit :=
  modify fun d => { d with dp := d.dp.set (d.didx ii jj mm) val }

/-- `Dget`: half of the largest `uint32_t` stands for what is not in the table. -/
def dget (d : EditDistPeriodicityDetector) (ii jj mm : ℕ) : ℕ :=
  if d.recordCount - ii < d.historyBufferSize ∧ jj < d.historyBufferSize ∧
      d.recordCount - mm < d.historyBufferSize then
    d.dp.getD (d.didx ii jj mm) 0
  else uint32Max / 2

/-- Every group of `div` values equals the group before it. -/
def perfectMatch (recs : List ℕ) (div : ℕ) : Bool :=
  recs.length % div == 0 &&
    (indices 1 (recs.length / div)).all fun group =>
      (recs.drop (div * group - div)).take div == (recs.drop (div * group)).take div

def findSmallestRepeatingPattern (d : EditDistPeriodicityDetector) (sliceStart : ℤ) :
    Except Exception ℕ := do
  if (d.historyBuffer.size : ℤ) = sliceStart then return 1
  let recs ← d.historyBuffer.makeVector (toUnsigned sliceStart) d.historyBuffer.size
  return ((indices 1 (recs.length / 2 + 1)).find? (perfectMatch recs)).getD recs.length

/-- The entry that ends the part of length `ii`, unless it is no longer in the history. -/
def comparedRec (d : EditDistPeriodicityDetector) (ii : ℕ) : Except Exception (Option ℕ) :=
  let numRecsInHist : ℤ := d.historyBuffer.size
  let entryAge : ℤ := d.recordCount - ((ii : ℤ) - 1)
  if entryAge ≤ numRecsInHist then
    (d.historyBuffer.value (numRecsInHist - entryAge)).map some
  else .ok none

/-- The body of the loop over the table: the distance of the last `recordCount - mm` entries from
the `ii` first ones, from those of shorter parts. -/
def fillCell (lastRecInHistory mm ii : ℕ) :
    EStateM Exception EditDistPeriodicityDetector Unit := do
  let d ← get
  let compared ← ret (d.comparedRec ii)
  let term := if compared = some lastRecInHistory then 0 else 2
  let len := d.recordCount - mm
  dset ii len mm
    (min (addUint32 (d.dget (ii - 1) len mm) 1)
      (min (addUint32 (d.dget ii (len - 1) mm) 1) (addUint32 (d.dget (ii - 1) (len - 1) mm) term)))

/-- The search of `calc_period` for the smallest distance, and where it is first reached. -/
def best (d : EditDistPeriodicityDetector) : ℕ × ℕ :=
  let val := fun mm => d.dget mm (d.recordCount - mm) mm
  let first := max ((d.recordCount + 1) / 2) (d.recordCount - d.historyBufferSize)
  (indices (first + 1) d.recordCount).foldl
    (fun best mm => if val mm < best.1 then (val mm, mm) else best) (val first, first)

def calcPeriod : EStateM Exception EditDistPeriodicityDetector Unit := do
  let d ← get
  let n := d.recordCount
  let oldest := n - d.historyBufferSize
  let numRecsInHist : ℤ := d.historyBuffer.size
  if n < 2 then pure ()
  else do
    (indices oldest n).forM fun ii => dset ii 0 (n - 1) 0
    (indices oldest n).forM fun mm => dset 0 (n - mm) mm (n - mm)
    let lastRecInHistory ← ret (d.historyBuffer.value (numRecsInHist - 1))
    (indices (max 1 oldest) n).forM fun mm =>
      (indices (max 1 oldest) (mm + 1)).forM fun ii => fillCell lastRecInHistory mm ii
    let d ← get
    let (bestval, bestm) := d.best
    let bestmReverseIndex : ℤ := n - bestm
    modify fun d => { d with score := toInt32 bestval }
    let period ← ret (d.findSmallestRepeatingPattern (numRecsInHist - bestmReverseIndex))
    modify fun d => { d with period := period }

/-- `update`. -/
def update (record : Record) : EStateM Exception EditDistPeriodicityDetector Unit := do
  if record.event = .regionEntry then
    zoom historyBuffer (fun b d => { d with historyBuffer := b })
      (CircularBuffer.insert record.signal)
    modify fun d => { d with recordCount := d.recordCount + 1 }
    calcPeriod
  else pure ()

/-! ### No exceptions -/

/-- The history holds the last entries, as many as fit. -/
structure Sized (d : EditDistPeriodicityDetector) : Prop where
  maxSize_eq : d.historyBuffer.maxSize = d.historyBufferSize
  count_eq : d.historyBuffer.count = min d.recordCount d.historyBufferSize
  small : d.historyBufferSize ≤ intMax

/-- The history of two detectors is the same. -/
structure SameHistory (d d' : EditDistPeriodicityDetector) : Prop where
  historyBuffer_eq : d'.historyBuffer = d.historyBuffer
  historyBufferSize_eq : d'.historyBufferSize = d.historyBufferSize
  recordCount_eq : d'.recordCount = d.recordCount

section

variable {d d' : EditDistPeriodicityDetector} {size : ℤ}

theorem mem_indices {start stop i : ℕ} : i ∈ indices start stop ↔ start ≤ i ∧ i < stop := by
  rw [indices, List.mem_range'_1]
  omega

theorem SameHistory.refl (d : EditDistPeriodicityDetector) : SameHistory d d := ⟨rfl, rfl, rfl⟩

theorem make_eq_ok (h : make size = .ok d) :
    0 ≤ size ∧ d.historyBufferSize = size.toNat ∧ d.recordCount = 0 ∧ Sized d := by
  unfold make at h
  dsimp only at h
  split_ifs at h with hcells
  cases h
  have hsize : 0 ≤ size := by
    by_contra hneg
    have hneg := Int.not_le.mp hneg
    have hsq := Int.mul_pos_of_neg_of_neg hneg hneg
    exact hcells (.inl (Int.mul_neg_of_pos_of_neg hsq hneg))
  refine ⟨hsize, rfl, rfl, rfl, (Nat.zero_min _).symm, ?_⟩
  dsimp only
  by_contra hbig
  have hlarge : (intMax : ℤ) < size := by omega
  have hone : 1 ≤ size * size := Int.mul_pos (by omega) (by omega)
  refine hcells (.inr (Int.lt_of_lt_of_le hlarge ?_))
  have hcube := Int.mul_le_mul_of_nonneg_right hone hsize
  omega

theorem dset_spec (h : SameHistory d d') (ii jj mm val : ℕ) :
    wp (dset ii jj mm val) (fun _ => SameHistory d) (fun _ _ => False) d' :=
  ⟨h.1, h.2, h.3⟩

theorem comparedRec_ok {ii : ℕ} (hhigh : ii ≤ d.recordCount) :
    ∃ r, d.comparedRec ii = .ok r := by
  unfold comparedRec CircularBuffer.size
  dsimp only
  split_ifs with hage
  · -- the entry is at least one record old, and young enough to be in the history
    obtain ⟨y, hy⟩ := d.historyBuffer.value_ok
      (d.historyBuffer.count - (d.recordCount - ((ii : ℤ) - 1))) (by omega) (by omega)
    exact ⟨some y, by rw [hy]; rfl⟩
  · exact ⟨none, rfl⟩

theorem fillCell_spec (h : SameHistory d d') {last mm ii : ℕ} (hhigh : ii ≤ d.recordCount) :
    wp (fillCell last mm ii) (fun _ => SameHistory d) (fun _ _ => False) d' := by
  have hii : ii ≤ d'.recordCount := h.recordCount_eq ▸ hhigh
  obtain ⟨r, hr⟩ := comparedRec_ok hii
  unfold fillCell
  rw [wp_bind, wp_get, wp_bind]
  refine wp_ret hr ?_
  exact dset_spec h _ _ _ _

theorem best_mem (hn : 2 ≤ d.recordCount) (hsize : 0 < d.historyBufferSize) :
    (d.recordCount + 1) / 2 ≤ d.best.2 ∧ d.recordCount - d.historyBufferSize ≤ d.best.2 ∧
      d.best.2 < d.recordCount := by
  unfold best
  refine List.foldlRecOn (motive := fun b : ℕ × ℕ => (d.recordCount + 1) / 2 ≤ b.2 ∧
    d.recordCount - d.historyBufferSize ≤ b.2 ∧ b.2 < d.recordCount) _ _ ?_ ?_
  · dsimp only
    omega
  · intro b hb mm hmm
    have hmem := mem_indices.mp hmm
    split_ifs
    · dsimp only
      omega
    · exact hb

theorem findSmallestRepeatingPattern_ok (start : ℤ) (h₀ : 0 ≤ start)
    (h : start < d.historyBuffer.size) (hsmall : d.historyBuffer.size < 2 ^ 32) :
    ∃ p, d.findSmallestRepeatingPattern start = .ok p := by
  have hstart : toUnsigned start < d.historyBuffer.size := by
    unfold toUnsigned
    omega
  obtain ⟨recs, hrecs⟩ := CircularBuffer.makeVector_ok hstart (Nat.le_refl _)
  unfold findSmallestRepeatingPattern
  rw [if_neg (by omega), hrecs]
  exact ⟨_, rfl⟩

/-- The loops over the table raise no exception, and leave a detector whose history has not
changed. -/
theorem calcPeriod_spec (hd : Sized d) (hsize : 0 < d.historyBufferSize) :
    wp calcPeriod (fun _ => SameHistory d) (fun _ _ => False) d := by
  have hcount := hd.count_eq
  have hsmall := hd.small
  unfold calcPeriod
  rw [wp_bind, wp_get, wp_ite]
  refine ⟨fun _ => .refl d, fun hn => ?_⟩
  rw [wp_bind]
  refine wp_mono (wp_forM (.refl d) fun ii _ d' h => dset_spec h _ _ _ _) ?_ fun _ _ h => h
  intro _ d₁ h₁
  rw [wp_bind]
  refine wp_mono (wp_forM h₁ fun mm _ d' h => dset_spec h _ _ _ _) ?_ fun _ _ h => h
  intro _ d₂ h₂
  obtain ⟨last, hlast⟩ := d.historyBuffer.value_ok (d.historyBuffer.size - 1)
    (by unfold CircularBuffer.size; omega) (by unfold CircularBuffer.size; omega)
  rw [wp_bind]
  refine wp_ret hlast ?_
  rw [wp_bind]
  refine wp_mono (wp_forM h₂ fun mm hmm d' h => wp_forM h fun ii hii d'' h' => ?_) ?_
    fun _ _ h => h
  · have hmm := mem_indices.mp hmm
    have hii := mem_indices.mp hii
    exact fillCell_spec h' (by omega)
  intro _ d₃ h₃
  have hbest := best_mem (d := d₃) (by rw [h₃.3]; omega) (by rw [h₃.2]; exact hsize)
  rw [h₃.2, h₃.3] at hbest
  have hhist : d₃.historyBuffer.size = min d.recordCount d.historyBufferSize := by
    rw [h₃.1]
    exact hcount
  have hsame : d.historyBuffer.size = min d.recordCount d.historyBufferSize := hcount
  obtain ⟨p, hp⟩ := findSmallestRepeatingPattern_ok (d := d₃)
    (d.historyBuffer.size - (d.recordCount - d₃.best.2)) (by omega) (by omega)
    (by unfold intMax at hsmall; omega)
  simp only [wp_bind, wp_get, wp_modify]
  exact wp_ret hp ⟨h₃.1, h₃.2, h₃.3⟩

theorem update_spec (hd : Sized d) (hsize : 0 < d.historyBufferSize) (r : Record) :
    wp (update r) (fun _ d' => Sized d' ∧ d'.historyBufferSize = d.historyBufferSize)
      (fun _ _ => False) d := by
  unfold update
  rw [wp_ite]
  refine ⟨fun _ => ?_, fun _ => ⟨hd, rfl⟩⟩
  rw [wp_bind, wp_zoom]
  refine wp_mono (CircularBuffer.insert_spec _ r.signal) ?_ fun _ _ h => ?_
  · rintro - b ⟨-, hmax, hcount⟩
    rw [wp_bind, wp_modify]
    have hd' : Sized { d with historyBuffer := b, recordCount := d.recordCount + 1 } := by
      refine ⟨hmax.trans hd.maxSize_eq, ?_, hd.small⟩
      have hold := hd.count_eq
      have hmaxSize := hd.maxSize_eq
      dsimp only
      omega
    refine wp_mono_ok (calcPeriod_spec hd' hsize) fun _ d' h => ?_
    obtain ⟨hbuffer, hsize', hrecord⟩ := h
    refine ⟨⟨?_, ?_, ?_⟩, hsize'⟩
    · rw [hbuffer, hsize']; exact hd'.1
    · rw [hbuffer, hsize', hrecord]; exact hd'.2
    · rw [hsize']; exact hd'.3
  · have hzero := h.1
    have hmaxSize := hd.maxSize_eq
    omega

theorem update_of_size_zero (hd : Sized d) (hsize : d.historyBufferSize = 0) {r : Record}
    (hr : r.event = .regionEntry) :
    wp (update r) (fun _ _ => False) (fun _ _ => True) d := by
  unfold update
  rw [if_pos hr, wp_bind, wp_zoom]
  refine wp_mono (CircularBuffer.insert_spec _ r.signal) (fun _ b h => ?_) fun _ _ _ => trivial
  have hpos := h.1
  have hmaxSize := hd.maxSize_eq
  omega

end

end EditDistPeriodicityDetector

end Geopm
