import Geopm.App.BufferRuns
import Geopm.Lib.Fallible
import Geopm.Lib.LeastSquares
import Geopm.Pio.IOGroup

/-!
# Derivative signals

A `DerivativeSignal` keeps the last samples of a signal in a circular buffer, with their times, and
estimates the derivative from them. Times and samples are exact numbers.

* `computeNext`, `sample`, `read` : the methods; `sample` and `read` are given what the two signals
  return;
* `IsDerivative` : the slope of the line of least squares through a window of samples;
* `computeNext_spec` : one insertion; `SampleHistory.Fits` : what the history holds;
* `sample_spec` : one call of `sample`, which inserts unless the time is the last one again;
* `derivative_spec` : the results of any sequence of insertions, of `sample` and of `read`.
-/

namespace Geopm.Pio

open Prog LeastSquares
open List hiding get modify

/-- `m_sample_s`. -/
structure Sample where
  time : ℚ
  sample : ℚ
deriving DecidableEq, Inhabited

/-- A history of samples, and the number of them that are fitted. -/
structure SampleHistory where
  history : CircularBuffer Sample
  numFit : ℕ

/-- The sums of the regression. -/
structure Sums where
  a : ℚ := 0
  b : ℚ := 0
  c : ℚ := 0
  d : ℚ := 0

/-- One round of the loop over the samples. -/
def Sums.add (first : Sample) (sums : Sums) (s : Sample) : Sums :=
  let dt := s.time - first.time
  let sig := s.sample - first.sample
  ⟨sums.a + dt * sig, sums.b + dt, sums.c + sig, sums.d + dt * dt⟩

namespace SampleHistory

/-- An empty history. -/
def make (numSampleHistory : ℕ) : SampleHistory := ⟨.make numSampleHistory, 0⟩

/-- The sums over the last `num_fit` samples. -/
def sums (h : SampleHistory) : Except Exception Sums := do
  let bufSize := h.history.size
  let first ← h.history.value ((bufSize : ℤ) - h.numFit)
  (List.range' (bufSize - h.numFit) h.numFit).foldlM
    (fun sums (bufOff : ℕ) => (h.history.value bufOff).map (sums.add first)) {}

/-- The derivative from the last `num_fit` samples. -/
def fit (nanReplace : Value) (h : SampleHistory) : Except Exception Value :=
  if 2 ≤ h.numFit then do
    let sums ← h.sums
    let e := 1 / (h.numFit : ℚ)
    let ssxx := sums.d - sums.b * sums.b * e
    let ssxy := sums.a - sums.b * sums.c * e
    return if ssxx ≠ 0 then some (ssxy / ssxx) else nanReplace
  else return none

end SampleHistory

def computeNext (nanReplace : Value) (s : Sample) : EStateM Exception SampleHistory Value := do
  zoom SampleHistory.history (fun b h => { h with history := b }) (CircularBuffer.insert s)
  modify fun h => if h.numFit < h.history.capacity then { h with numFit := h.numFit + 1 } else h
  let h ← get
  ret (h.fit nanReplace)

/-- Successive insertions, and the result of the last one. -/
def computeAll (nanReplace : Value) (samples : List Sample) :
    EStateM Exception SampleHistory Value :=
  samples.foldlM (fun _ s => computeNext nanReplace s) none

/-- The members of `DerivativeSignal`. -/
structure DerivativeSignal where
  numSampleHistory : ℕ
  history : SampleHistory
  isBatchReady : Bool
  lastResult : Value
  nanReplace : Value
  lastTime : Value

namespace DerivativeSignal

/-- The constructor. -/
def make (numSampleHistory : ℕ) (nanReplace : Value) : DerivativeSignal where
  numSampleHistory := numSampleHistory
  history := .make numSampleHistory
  isBatchReady := false
  lastResult := none
  nanReplace := nanReplace
  lastTime := none

def setupBatch (d : DerivativeSignal) : DerivativeSignal := { d with isBatchReady := true }

/-- `sample`, where the two signals have the values `s` in this batch. -/
def sample (s : Sample) : EStateM Exception DerivativeSignal Value := do
  let d ← get
  if d.isBatchReady then
    if d.history.history.size = 0 ∨ d.lastTime ≠ some s.time then do
      let result ← zoom DerivativeSignal.history (fun h d => { d with history := h })
        (computeNext d.nanReplace s)
      modify fun d => { d with lastResult := result, lastTime := some s.time }
    let d ← get
    return d.lastResult
  else throw ⟨"setup_batch() must be called before sample().", [], .runtime⟩

/-- Successive calls of `sample`, and the result of the last one. -/
def sampleAll (samples : List Sample) : EStateM Exception DerivativeSignal Value :=
  samples.foldlM (fun _ s => sample s) none

/-- `read`, where the two signals return `readings` one after the other. -/
def read (d : DerivativeSignal) (readings : Fin d.numSampleHistory → Sample) :
    Except Exception Value :=
  match computeAll d.nanReplace (List.ofFn readings) (.make d.numSampleHistory) with
  | .ok result _ => .ok result
  | .error e _ => .error e

end DerivativeSignal

/-! ### The result of one insertion -/

/-- The points of a window, with the times as abscissas. -/
def points (window : List Sample) : List (ℚ × ℚ) := window.map fun s => (s.time, s.sample)

/-- All samples have the same time. -/
def SameTime (window : List Sample) : Prop := ∀ s ∈ window, ∀ t ∈ window, s.time = t.time

/-- What the derivative is, given the samples that count. -/
structure IsDerivative (nanReplace : Value) (window : List Sample) (result : Value) : Prop where
  short : window.length < 2 → result = none
  level : 2 ≤ window.length → SameTime window → result = nanReplace
  slope : 2 ≤ window.length → ¬ SameTime window →
    ∃ b, result = some b ∧ IsSlope b (points window) ∧ ∀ b', IsSlope b' (points window) → b' = b

/-- The history holds the last of the samples `xs`, and all that it holds are fitted. -/
structure SampleHistory.Fits (n : ℕ) (xs : List Sample) (h : SampleHistory) : Prop where
  holds : h.history.Holds xs
  maxSize_eq : h.history.maxSize = n
  numFit_eq : h.numFit = h.history.count

namespace SampleHistory.Fits

variable {n : ℕ} {xs : List Sample} {h : SampleHistory} {nanReplace : Value}

theorem count_eq (hh : h.Fits n xs) : h.history.count = (newest n xs).length := by
  rw [length_newest, hh.holds.count_eq, hh.maxSize_eq]

/-- The values of the buffer are those of the window. -/
theorem value_eq (hh : h.Fits n xs) (i : ℕ) (hi : i < (newest n xs).length) :
    h.history.value i = .ok ((newest n xs)[i]) := by
  have hcount := hh.count_eq
  have hmin := hh.holds.count_eq
  rw [hh.maxSize_eq] at hmin
  obtain ⟨y, hy, hget⟩ := hh.holds.value i (by omega) (by omega)
  have hnewest : (newest n xs)[i]? = xs[xs.length - n + i]? := getElem?_newest i
  rw [getElem?_eq_getElem hi] at hnewest
  have hindex : xs.length - h.history.count + (i : ℤ).toNat = xs.length - n + i := by omega
  rw [hindex, ← hnewest] at hget
  rw [hy, Option.some.inj hget]

theorem sums_eq (hh : h.Fits n xs) {first : Sample} {rest : List Sample}
    (hwindow : newest n xs = first :: rest) :
    h.sums = .ok ((newest n xs).foldl (Sums.add first) {}) := by
  have hcount := hh.count_eq
  have hfirst : h.history.value ((h.history.size : ℤ) - h.numFit) = .ok first := by
    have hvalue := hh.value_eq 0 (by rw [hwindow]; exact Nat.succ_pos _)
    simp only [hwindow, getElem_cons_zero] at hvalue
    rw [hh.numFit_eq, CircularBuffer.size, sub_self]
    exact hvalue
  rw [SampleHistory.sums, hfirst, hh.numFit_eq, CircularBuffer.size, Nat.sub_self, hcount]
  exact Except.foldlM_range'_eq_ok fun i hi => by
    rw [Nat.zero_add]
    exact hh.value_eq i hi

end SampleHistory.Fits

theorem sums_foldl (first : Sample) (window : List Sample) (sums : Sums) :
    window.foldl (Sums.add first) sums =
      let shifted := shift first.time first.sample (points window)
      ⟨sums.a + total (fun p => p.1 * p.2) shifted, sums.b + total Prod.fst shifted,
        sums.c + total Prod.snd shifted, sums.d + total (fun p => p.1 * p.1) shifted⟩ := by
  induction window generalizing sums with
  | nil => simp [points, shift]
  | cons s window ih =>
    rw [foldl_cons, ih]
    simp [Sums.add, points, shift, add_assoc]

theorem isDerivative_window (nanReplace : Value) {window : List Sample}
    (htwo : 2 ≤ window.length) :
    IsDerivative nanReplace window
      (if sxx (points window) ≠ 0 then some (LeastSquares.slope (points window)) else nanReplace) := by
  have hne : points window ≠ [] := by
    rw [points, ne_eq, map_eq_nil_iff]
    rintro rfl
    exact absurd htwo (by decide)
  have hsame : sxx (points window) = 0 ↔ SameTime window := by
    rw [sxx_eq_zero_iff hne]
    simp [points, SameTime]
  refine ⟨fun h => absurd h (Nat.not_lt.mpr htwo), fun _ h => ?_, fun _ h => ?_⟩
  · rw [if_neg (not_not.mpr (hsame.mpr h))]
  · have hxx : sxx (points window) ≠ 0 := fun hzero => h (hsame.mp hzero)
    refine ⟨LeastSquares.slope (points window), if_pos hxx, ?_, fun b' hb' => ?_⟩
    · exact (isSlope_iff hne hxx).mpr rfl
    · exact (isSlope_iff hne hxx).mp hb'

theorem SampleHistory.Fits.fit_spec {n : ℕ} {xs : List Sample} {h : SampleHistory}
    (hh : h.Fits n xs) (nanReplace : Value) :
    ∃ result, h.fit nanReplace = .ok result ∧ IsDerivative nanReplace (newest n xs) result := by
  have hcount := hh.count_eq
  rw [SampleHistory.fit, hh.numFit_eq, hcount]
  split_ifs with htwo
  · have hpos : 0 < (newest n xs).length := by omega
    obtain ⟨first, rest, hwindow⟩ := exists_cons_of_length_pos hpos
    refine ⟨_, ?_, isDerivative_window nanReplace htwo⟩
    have hne : points (newest n xs) ≠ [] := by simp [points, hwindow]
    have hlength : ((newest n xs).length : ℚ) = (points (newest n xs)).length := by simp [points]
    have hsxx := sxx_shift first.time first.sample hne
    have hsxy := sxy_shift first.time first.sample hne
    simp only [sxx, sxy, length_shift] at hsxx hsxy
    rw [hh.sums_eq hwindow, sums_foldl, LeastSquares.slope, sxx, sxy, ← hsxx, ← hsxy]
    simp only [zero_add, hlength]
    rfl
  · exact ⟨none, rfl, fun _ => rfl, fun h => absurd h htwo, fun h => absurd h htwo⟩

theorem computeNext_spec {n : ℕ} {xs : List Sample} {h : SampleHistory} (hh : h.Fits n xs)
    (hn : 0 < n) (nanReplace : Value) (s : Sample) :
    ∃ result h', computeNext nanReplace s h = .ok result h' ∧ h'.Fits n (xs ++ [s]) ∧
      IsDerivative nanReplace (newest n (xs ++ [s])) result := by
  have hpos : 0 < h.history.maxSize := by rw [hh.maxSize_eq]; exact hn
  have hinsert : zoom SampleHistory.history (fun b h => { h with history := b })
      (CircularBuffer.insert s) h = .ok () { h with history := h.history.push hpos s } := by
    rw [zoom, CircularBuffer.insert_eq_ok hpos]
  have hcapacity := CircularBuffer.push_maxSize hpos (x := s)
  have hpush := CircularBuffer.push_count hpos (x := s)
  have hle := h.history.count_le
  obtain ⟨h', hh'⟩ : ∃ h' : SampleHistory, h' =
      if h.numFit < (h.history.push hpos s).capacity then
        ⟨h.history.push hpos s, h.numFit + 1⟩ else ⟨h.history.push hpos s, h.numFit⟩ := ⟨_, rfl⟩
  have hfits : h'.Fits n (xs ++ [s]) := by
    rw [hh', CircularBuffer.capacity, hcapacity, hh.numFit_eq]
    split_ifs with hroom
    · refine ⟨hh.holds.push hpos, hcapacity.trans hh.maxSize_eq, ?_⟩
      simp only [hpush]
      omega
    · refine ⟨hh.holds.push hpos, hcapacity.trans hh.maxSize_eq, ?_⟩
      simp only [hpush]
      omega
  obtain ⟨result, hfit, hderivative⟩ := hfits.fit_spec nanReplace
  refine ⟨result, h', ?_, hfits, hderivative⟩
  have hcount : (modify fun h : SampleHistory =>
      if h.numFit < h.history.capacity then { h with numFit := h.numFit + 1 } else h :
        EStateM Exception SampleHistory Unit) { h with history := h.history.push hpos s } =
      .ok () h' := by
    rw [hh']
    rfl
  rw [computeNext, bind_of_ok hinsert, bind_of_ok hcount]
  change ret (h'.fit nanReplace) h' = _
  rw [hfit]
  rfl

theorem SampleHistory.fits_make (n : ℕ) : (SampleHistory.make n).Fits n [] :=
  ⟨CircularBuffer.holds_make n, rfl, rfl⟩

theorem computeAll_spec {n : ℕ} (hn : 0 < n) (nanReplace : Value) (samples : List Sample) :
    ∃ result h, computeAll nanReplace samples (.make n) = .ok result h ∧ h.Fits n samples ∧
      IsDerivative nanReplace (newest n samples) result := by
  induction samples using List.reverseRecOn with
  | nil =>
    refine ⟨none, .make n, rfl, SampleHistory.fits_make n, fun _ => rfl, fun h => ?_, fun h => ?_⟩
    · exact absurd h (by simp [newest])
    · exact absurd h (by simp [newest])
  | append_singleton samples s ih =>
    obtain ⟨result, h, hrun, hfits, -⟩ := ih
    obtain ⟨result', h', hnext, hfits', hderivative⟩ := computeNext_spec hfits hn nanReplace s
    refine ⟨result', h', ?_, hfits', hderivative⟩
    simp only [computeAll, foldlM_append, foldlM_cons, foldlM_nil, bind_pure]
    exact (bind_of_ok hrun).trans hnext

/-! ### Runs of `sample` -/

namespace DerivativeSignal

/-- The samples that are inserted: not those whose time is that of the last one inserted. -/
def inserted (samples : List Sample) : List Sample :=
  samples.foldl (fun xs s => if xs.getLast?.map Sample.time = some s.time then xs else xs ++ [s]) []

/-- What a signal keeps from one call of `sample` to the next. -/
structure Sampled (n : ℕ) (nanReplace : Value) (xs : List Sample) (d : DerivativeSignal) :
    Prop where
  ready : d.isBatchReady = true
  nanReplace_eq : d.nanReplace = nanReplace
  fits : d.history.Fits n xs
  lastTime_eq : d.lastTime = xs.getLast?.map Sample.time
  derivative : IsDerivative nanReplace (newest n xs) d.lastResult

variable {n : ℕ} {nanReplace : Value} {xs : List Sample} {d : DerivativeSignal}

theorem inserted_concat (samples : List Sample) (s : Sample) :
    inserted (samples ++ [s]) =
      if (inserted samples).getLast?.map Sample.time = some s.time then inserted samples
      else inserted samples ++ [s] := by
  simp [inserted]

theorem sampled_make (n : ℕ) (nanReplace : Value) :
    (make n nanReplace).setupBatch.Sampled n nanReplace [] where
  ready := rfl
  nanReplace_eq := rfl
  fits := SampleHistory.fits_make n
  lastTime_eq := rfl
  derivative := by
    refine ⟨fun _ => rfl, fun h => ?_, fun h => ?_⟩
    · exact absurd h (by simp [newest])
    · exact absurd h (by simp [newest])

/-- A call at the time of the last sample changes nothing. -/
theorem Sampled.sample_again (hd : d.Sampled n nanReplace xs) (hn : 0 < n) {s : Sample}
    (hlast : xs.getLast?.map Sample.time = some s.time) :
    sample s d = .ok d.lastResult d := by
  have hne : xs ≠ [] := by
    rintro rfl
    cases hlast
  have hsize : d.history.history.size ≠ 0 := by
    have hcount := hd.fits.holds.count_eq
    have hlength := length_pos_iff.mpr hne
    rw [hd.fits.maxSize_eq] at hcount
    rw [CircularBuffer.size]
    omega
  have htime : d.lastTime = some s.time := hd.lastTime_eq.trans hlast
  change (if d.isBatchReady = true then _ else _ : EStateM Exception DerivativeSignal Value) d = _
  rw [if_pos hd.ready, if_neg (by simp [hsize, htime])]
  rfl

theorem Sampled.sample_new (hd : d.Sampled n nanReplace xs) (hn : 0 < n) {s : Sample}
    (hlast : xs.getLast?.map Sample.time ≠ some s.time) :
    ∃ d', sample s d = .ok d'.lastResult d' ∧ d'.Sampled n nanReplace (xs ++ [s]) := by
  obtain ⟨result, h', hnext, hfits, hderivative⟩ :=
    computeNext_spec hd.fits hn d.nanReplace s
  have htime : d.lastTime ≠ some s.time := fun h => hlast (hd.lastTime_eq.symm.trans h)
  have hzoom : zoom DerivativeSignal.history (fun h d => { d with history := h })
      (computeNext d.nanReplace s) d = .ok result { d with history := h' } := by
    rw [zoom, hnext]
  refine ⟨{ d with history := h', lastResult := result, lastTime := some s.time }, ?_, ?_⟩
  · change (if d.isBatchReady = true then _ else _ : EStateM Exception DerivativeSignal Value) d = _
    rw [if_pos hd.ready, if_pos (.inr htime)]
    exact bind_of_ok hzoom
  · exact ⟨hd.ready, hd.nanReplace_eq, hfits, by simp, hd.nanReplace_eq ▸ hderivative⟩

/-- One call of `sample`: after it, another one at the same time changes nothing. -/
theorem Sampled.sample_spec (hd : d.Sampled n nanReplace xs) (hn : 0 < n) (s : Sample) :
    ∃ d', sample s d = .ok d'.lastResult d' ∧
      d'.Sampled n nanReplace
        (if xs.getLast?.map Sample.time = some s.time then xs else xs ++ [s]) ∧
      ∀ y, sample ⟨s.time, y⟩ d' = .ok d'.lastResult d' := by
  by_cases hlast : xs.getLast?.map Sample.time = some s.time
  · rw [if_pos hlast]
    exact ⟨d, hd.sample_again hn hlast, hd, fun _ => hd.sample_again hn hlast⟩
  · rw [if_neg hlast]
    obtain ⟨d', hsample, hd'⟩ := hd.sample_new hn hlast
    exact ⟨d', hsample, hd', fun _ => hd'.sample_again hn (by simp)⟩

theorem sampleAll_spec (hn : 0 < n) (nanReplace : Value) (samples : List Sample) :
    ∃ result d, sampleAll samples (make n nanReplace).setupBatch = .ok result d ∧
      d.Sampled n nanReplace (inserted samples) := by
  induction samples using List.reverseRecOn with
  | nil => exact ⟨none, _, rfl, sampled_make n nanReplace⟩
  | append_singleton samples s ih =>
    obtain ⟨result, d, hrun, hd⟩ := ih
    obtain ⟨d', hsample, hd', -⟩ := hd.sample_spec hn s
    refine ⟨d'.lastResult, d', ?_, by rwa [inserted_concat]⟩
    simp only [sampleAll, foldlM_append, foldlM_cons, foldlM_nil, bind_pure]
    exact (bind_of_ok hrun).trans hsample

end DerivativeSignal

open DerivativeSignal in
/-- The derivative after any insertions, after any calls of `sample`, where another call at the same
time returns it again and changes nothing, and from the readings of `read`. -/
theorem derivative_spec (n : ℕ) (hn : 0 < n) (nanReplace : Value) :
    (∀ samples, ∃ result h, computeAll nanReplace samples (.make n) = .ok result h ∧
      IsDerivative nanReplace (newest n samples) result) ∧
    (∀ samples s, ∃ result d,
      sampleAll (samples ++ [s]) (make n nanReplace).setupBatch = .ok result d ∧
      IsDerivative nanReplace (newest n (inserted (samples ++ [s]))) result ∧
      ∀ y, DerivativeSignal.sample ⟨s.time, y⟩ d = .ok result d) ∧
    ∀ readings, ∃ result, (make n nanReplace).read readings = .ok result ∧
      IsDerivative nanReplace (List.ofFn readings) result := by
  refine ⟨fun samples => ?_, fun samples s => ?_, fun readings => ?_⟩
  · obtain ⟨result, h, hrun, -, hderivative⟩ := computeAll_spec hn nanReplace samples
    exact ⟨result, h, hrun, hderivative⟩
  · obtain ⟨result, d, hrun, hd⟩ := sampleAll_spec hn nanReplace samples
    obtain ⟨d', hsample, hd', hagain⟩ := hd.sample_spec hn s
    refine ⟨d'.lastResult, d', ?_, ?_, hagain⟩
    · simp only [sampleAll, foldlM_append, foldlM_cons, foldlM_nil, bind_pure]
      exact (bind_of_ok hrun).trans hsample
    · rw [inserted_concat]
      exact hd'.derivative
  · obtain ⟨result, h, hrun, -, hderivative⟩ := computeAll_spec hn nanReplace (List.ofFn readings)
    rw [newest_eq_self (by rw [length_ofFn]; exact Nat.le_refl n)] at hderivative
    refine ⟨result, ?_, hderivative⟩
    have hread : computeAll (make n nanReplace).nanReplace (List.ofFn readings)
        (.make (make n nanReplace).numSampleHistory) = .ok result h := hrun
    rw [DerivativeSignal.read, hread]

theorem derivative_spec_line : 0 < 2 ∧ ∃ result h,
    computeAll (some 0) [⟨0, 7⟩, ⟨1, 2⟩, ⟨3, 6⟩] (.make 2) = .ok result h ∧
      IsDerivative (some 0) (newest 2 [⟨0, 7⟩, ⟨1, 2⟩, ⟨3, 6⟩]) result :=
  ⟨by decide, (derivative_spec 2 (by decide) (some 0)).1 _⟩

end Geopm.Pio
