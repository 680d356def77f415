import Geopm.App.DistanceTable

/-!
# What the periodicity detector finds

* `Detected` : a block at the end of the entries, written twice, that fits into the history;
* `foldl_first_min`, `pattern_isLeast` : what the two searches of the detector return;
* `calcPeriod_reports` : the score and the period after an update;
* `reports_of_run` : the score is zero when, and only when, a block has been repeated exactly.
-/

namespace Geopm

open Prog
open List

namespace EditDistPeriodicityDetector

/-- The entries end with a block of the length `p`, written twice, that the detector can see. -/
def Detected (size : ℕ) (xs : List ℕ) (p : ℕ) : Prop :=
  1 ≤ p ∧ p ≤ min (xs.length / 2) (size - 2) ∧ xs.EndsTwice p

/-- The score and the period tell which block is repeated. -/
structure Reports (size : ℕ) (xs : List ℕ) (d : EditDistPeriodicityDetector) : Prop where
  score_eq_zero : d.score = 0 ↔ ∃ p, Detected size xs p
  score_nonneg : 0 ≤ d.score
  period_eq : d.score = 0 → ∃ q p : ℕ, d.period = q ∧ xs.EndsTwice q ∧
    IsGreatest {p | Detected size xs p} p ∧
    IsLeast {q | (xs.drop (xs.length - p)).RepeatsLast q} q

/-- The hashes of the regions that have been entered. -/
def entered (rs : List Record) : List ℕ :=
  rs.filterMap fun r => if r.event = .regionEntry then some r.signal else none

/-! ### The two searches -/

section Searches

variable {first stop : ℕ} {w : List ℕ} {p : ℕ}

/-- The search for the first of the smallest values. -/
theorem foldl_first_min (val : ℕ → ℕ) (h : first < stop) :
    let best := (indices (first + 1) stop).foldl
      (fun best mm => if val mm < best.1 then (val mm, mm) else best) (val first, first)
    best.1 = val best.2 ∧ first ≤ best.2 ∧ best.2 < stop ∧
      ∀ mm, first ≤ mm → mm < stop → best.1 ≤ val mm ∧ (mm < best.2 → best.1 < val mm) := by
  induction stop, Nat.succ_le_of_lt h using Nat.le_induction with
  | base =>
    have hnone : indices (first + 1) (first + 1) = [] := by simp [indices]
    rw [hnone]
    refine ⟨rfl, Nat.le_refl _, Nat.lt_succ_self _, fun mm hle hlt => ?_⟩
    obtain rfl : mm = first := by omega
    exact ⟨Nat.le_refl _, fun h => absurd h (Nat.lt_irrefl _)⟩
  | succ stop hstop ih =>
    obtain ⟨hval, hfirst, hlt, hmin⟩ := ih hstop
    have hconcat : indices (first + 1) (stop + 1) = indices (first + 1) stop ++ [stop] := by
      have hsub : stop + 1 - (first + 1) = stop - (first + 1) + 1 := by omega
      rw [indices, hsub, range'_1_concat, indices]
      exact congrArg (fun x => List.range' (first + 1) (stop - (first + 1)) ++ [x]) (by omega)
    rw [hconcat, foldl_concat]
    dsimp only at hval hfirst hlt hmin ⊢
    split_ifs with hless
    · refine ⟨rfl, by omega, Nat.lt_succ_self _, fun mm hle hmm => ?_⟩
      rcases Nat.lt_succ_iff_lt_or_eq.mp hmm with hmm | rfl
      · have hmm := (hmin mm hle hmm).1
        exact ⟨by omega, fun _ => by omega⟩
      · exact ⟨Nat.le_refl _, fun h => absurd h (Nat.lt_irrefl _)⟩
    · refine ⟨hval, hfirst, by omega, fun mm hle hmm => ?_⟩
      rcases Nat.lt_succ_iff_lt_or_eq.mp hmm with hmm | rfl
      · exact hmin mm hle hmm
      · exact ⟨Nat.not_lt.mp hless, fun h => by omega⟩

theorem perfectMatch_iff (hp : 0 < p) (hw : w ≠ []) :
    perfectMatch w p = true ↔ w.RepeatsLast p := by
  rw [List.repeatsLast_iff hp hw, perfectMatch, Bool.and_eq_true, beq_iff_eq,
    ← Nat.dvd_iff_mod_eq_zero]
  refine and_congr_right fun hdvd => ?_
  rw [List.hasPeriod_iff_groups hp hdvd, all_eq_true]
  simp only [mem_indices, beq_iff_eq, and_imp]

theorem pattern_isLeast (hw : w ≠ []) :
    IsLeast {q | w.RepeatsLast q}
      (((indices 1 (w.length / 2 + 1)).find? (perfectMatch w)).getD w.length) := by
  cases hfind : (indices 1 (w.length / 2 + 1)).find? (perfectMatch w) with
  | none =>
    refine ⟨List.repeatsLast_length hw, fun q hq => ?_⟩
    by_contra hlt
    obtain ⟨k, hk⟩ := ((List.repeatsLast_iff hq.1 hw).mp hq).1
    have hhalf : q ≤ w.length / 2 := by
      rw [Option.getD_none, Nat.not_le] at hlt
      have hk₂ : 2 ≤ k := by
        by_contra hk₂
        have hle := Nat.mul_le_mul_left q (by omega : k ≤ 1)
        omega
      have hle := Nat.mul_le_mul_left q hk₂
      omega
    have hnone := find?_eq_none.mp hfind q (mem_indices.mpr ⟨hq.1, by omega⟩)
    exact hnone ((perfectMatch_iff hq.1 hw).mpr hq)
  | some q =>
    obtain ⟨hmatch, pre, post, hsplit, hpre⟩ := find?_eq_some_iff_append.mp hfind
    have hmem : q ∈ indices 1 (w.length / 2 + 1) :=
      hsplit ▸ mem_append_right _ mem_cons_self
    have hpos := (mem_indices.mp hmem).1
    refine ⟨(perfectMatch_iff hpos hw).mp hmatch, fun q' hq' => ?_⟩
    by_contra hlt
    have hbefore := hpre q' (mem_of_indices_eq hsplit hq'.1 (Nat.not_le.mp hlt))
    rw [(perfectMatch_iff hq'.1 hw).mpr hq'] at hbefore
    cases hbefore

end Searches

/-! ### Updates -/

/-- The detector after the entries `xs`. -/
structure Tracks (size : ℕ) (xs : List ℕ) (d : EditDistPeriodicityDetector) : Prop where
  recorded : Recorded size xs d
  table : Table size xs xs.length d

section Update

variable {d : EditDistPeriodicityDetector} {size p mm : ℕ} {xs : List ℕ}

section

variable (hd : Recorded size xs d)
include hd

section

variable (htable : Table size xs xs.length d)
include htable

/-- The value of the search at `mm` tells whether the entries from `mm` on repeat those before. -/
theorem dget_eq_zero_iff (hlow : max ((xs.length + 1) / 2) (xs.length - size) ≤ mm) (hlt : mm < xs.length) :
    d.dget mm (xs.length - mm) mm = 0 ↔ Detected size xs (xs.length - mm) := by
  have hsize := hd.size_eq
  have hcount := hd.count_eq
  have hends := List.endsTwice_iff_suffix (w := xs) (p := xs.length - mm) (by omega)
  have hsub : xs.length - (xs.length - mm) = mm := by omega
  rw [hsub] at hends
  unfold Detected
  by_cases hwindow : xs.length < mm + size
  · have hok := (htable mm mm ⟨by omega, hlt, hwindow, Nat.le_refl _, hwindow⟩).zero_iff
    rw [dget_eq_cell (by omega) (by omega) (by omega), hok, take_length, hends]
    refine ⟨fun h => ⟨by omega, by omega, h.2⟩, fun h => ⟨by omega, h.2.2⟩⟩
  · exact iff_of_false (dget_ne_zero (by omega)) fun h => by omega

theorem dget_newest_le (hsize : 2 ≤ size) (hxs : 2 ≤ xs.length) :
    d.dget (xs.length - 1) (xs.length - (xs.length - 1)) (xs.length - 1) ≤ 1 := by
  have heq := hd.size_eq
  have hcount := hd.count_eq
  have hok := htable (xs.length - 1) (xs.length - 1)
    ⟨by omega, by omega, by omega, Nat.le_refl _, by omega⟩
  rw [dget_eq_cell (by omega) (by omega) (by omega)]
  exact hok.le.trans (by omega)

/-- What the search for the best block finds. -/
theorem best_spec (hsize : 2 ≤ size) (hxs : 2 ≤ xs.length) :
    d.best.1 ≤ 1 ∧ (d.best.1 = 0 ↔ ∃ p, Detected size xs p) ∧
      (d.best.1 = 0 → IsGreatest {p | Detected size xs p} (xs.length - d.best.2)) := by
  have hfirst : max ((xs.length + 1) / 2) (xs.length - size) < xs.length := by omega
  have hmin := foldl_first_min (fun mm => d.dget mm (xs.length - mm) mm) hfirst
  have hbest : d.best = (indices (max ((xs.length + 1) / 2) (xs.length - size) + 1)
      xs.length).foldl (fun best mm => if d.dget mm (xs.length - mm) mm < best.1 then
        (d.dget mm (xs.length - mm) mm, mm) else best)
      (d.dget (max ((xs.length + 1) / 2) (xs.length - size))
        (xs.length - max ((xs.length + 1) / 2) (xs.length - size))
        (max ((xs.length + 1) / 2) (xs.length - size)),
        max ((xs.length + 1) / 2) (xs.length - size)) := by
    unfold best
    rw [hd.count_eq, hd.size_eq]
  rw [← hbest] at hmin
  obtain ⟨hval, hlow, hlt, hmin⟩ := hmin
  -- a block that is detected is one of those that are searched
  have hdetected : ∀ p, Detected size xs p →
      max ((xs.length + 1) / 2) (xs.length - size) ≤ xs.length - p ∧
        xs.length - p < xs.length ∧ d.dget (xs.length - p) (xs.length - (xs.length - p))
          (xs.length - p) = 0 := by
    intro p hp
    have hpos := hp.1
    have hle := hp.2.1
    have hsub : xs.length - (xs.length - p) = p := by omega
    have hlow' : max ((xs.length + 1) / 2) (xs.length - size) ≤ xs.length - p := by omega
    have hlt' : xs.length - p < xs.length := by omega
    refine ⟨hlow', hlt', (dget_eq_zero_iff hd htable hlow' hlt').mpr ?_⟩
    rw [hsub]
    exact hp
  refine ⟨?_, ?_, fun hzero => ⟨?_, fun p hp => ?_⟩⟩
  · exact (hmin (xs.length - 1) (by omega) (by omega)).1.trans (dget_newest_le hd htable hsize hxs)
  · constructor
    · intro hzero
      exact ⟨_, (dget_eq_zero_iff hd htable hlow hlt).mp (hval.symm.trans hzero)⟩
    · rintro ⟨p, hp⟩
      obtain ⟨hlow', hlt', hzero⟩ := hdetected p hp
      have hle := (hmin _ hlow' hlt').1
      omega
  · exact (dget_eq_zero_iff hd htable hlow hlt).mp (hval.symm.trans hzero)
  · obtain ⟨hlow', hlt', hzero'⟩ := hdetected p hp
    have hless := (hmin _ hlow' hlt').2
    have hp' := hp.2.1
    by_contra hgreater
    have hbefore := hless (by omega)
    omega

end

theorem pattern_eq (hsmall : size ≤ intMax) (hpos : 1 ≤ p)
    (hxs : p ≤ xs.length) (hsize : p ≤ size) :
    ∃ q, d.findSmallestRepeatingPattern (d.historyBuffer.size - p) = .ok q ∧
      IsLeast {q | (xs.drop (xs.length - p)).RepeatsLast q} q := by
  have hcount := hd.holds.count_eq
  rw [hd.maxSize_eq] at hcount
  unfold intMax at hsmall
  have hstart : toUnsigned (d.historyBuffer.size - p) = d.historyBuffer.size - p := by
    unfold toUnsigned CircularBuffer.size
    omega
  have hlt : d.historyBuffer.size - p < d.historyBuffer.size := by
    unfold CircularBuffer.size
    omega
  have hslice := hd.holds.makeVector hlt
  have hdrop : xs.length - d.historyBuffer.count + (d.historyBuffer.size - p) = xs.length - p := by
    unfold CircularBuffer.size
    omega
  rw [hdrop] at hslice
  have hne : xs.drop (xs.length - p) ≠ [] := by
    rw [Ne, drop_eq_nil_iff]
    omega
  refine ⟨_, ?_, pattern_isLeast hne⟩
  unfold findSmallestRepeatingPattern
  rw [if_neg (by omega), hstart, hslice]
  rfl

/-- An update finds the block that is repeated. -/
theorem calcPeriod_reports (htable : Table size xs (xs.length - 1) d)
    (hsize : 2 ≤ size) (hsmall : size ≤ intMax) (hxs : 2 ≤ xs.length) :
    wp calcPeriod (fun _ d' => Tracks size xs d' ∧ Reports size xs d') (fun _ _ => False) d := by
  obtain ⟨last, hvalue, hlast⟩ := hd.newest (by omega) (by omega)
  unfold calcPeriod
  rw [wp_bind, wp_get]
  dsimp only
  rw [hd.count_eq, hd.size_eq, if_neg (by omega), wp_bind]
  refine wp_mono_ok (clear_filling hd htable hsize) fun _ d₁ h₁ => ?_
  rw [wp_bind]
  refine wp_mono_ok (edge_filling h₁ hsize) fun _ d₂ h₂ => ?_
  rw [wp_bind]
  refine wp_ret hvalue ?_
  rw [wp_bind]
  refine wp_mono (table_of_filling h₂ hsize hsmall hlast) ?_ fun _ _ h => h
  rintro - d₃ ⟨h₃, htable₃⟩
  obtain ⟨hbest, hzero, hgreatest⟩ := best_spec h₃ htable₃ hsize hxs
  have hscore : toInt32 d₃.best.1 = d₃.best.1 := if_pos (hbest.trans (by decide))
  have hlow := best_mem (d := d₃) (by rw [h₃.count_eq]; exact hxs) (by rw [h₃.size_eq]; omega)
  rw [h₃.count_eq, h₃.size_eq] at hlow
  obtain ⟨q, hq, hleast⟩ := pattern_eq h₃ hsmall (p := xs.length - d₃.best.2) (by omega) (by omega)
    (by omega)
  have hsame : d.historyBuffer.size = d₃.historyBuffer.size := by
    have hcount := hd.holds.count_eq
    have hcount₃ := h₃.holds.count_eq
    rw [hd.maxSize_eq] at hcount
    rw [h₃.maxSize_eq] at hcount₃
    exact hcount.trans hcount₃.symm
  have hindex : (d.historyBuffer.size : ℤ) - ((xs.length : ℤ) - d₃.best.2) =
      d₃.historyBuffer.size - (xs.length - d₃.best.2 : ℕ) := by
    rw [hsame]
    omega
  rw [wp_bind, wp_get, wp_bind, wp_modify, wp_bind, hindex]
  refine wp_ret hq ?_
  rw [wp_modify]
  refine ⟨⟨⟨h₃.size_eq, h₃.count_eq, h₃.holds, h₃.maxSize_eq, h₃.length_eq⟩, fun i m hin =>
    ⟨(htable₃ i m hin).le, (htable₃ i m hin).zero_iff⟩⟩, ?_, ?_, fun hscore₀ => ?_⟩
  · change toInt32 d₃.best.1 = 0 ↔ _
    rw [hscore, Int.natCast_eq_zero, hzero]
  · change 0 ≤ toInt32 d₃.best.1
    rw [hscore]
    exact Int.natCast_nonneg _
  · change toInt32 d₃.best.1 = 0 at hscore₀
    rw [hscore, Int.natCast_eq_zero] at hscore₀
    have hlargest := hgreatest hscore₀
    exact ⟨q, _, rfl, hlargest.1.2.2.of_repeatsLast hleast.1, hlargest, hleast⟩

end

theorem table_append (x : ℕ) (htable : Table size xs xs.length d) (buffer : CircularBuffer ℕ)
    (count : ℕ) :
    Table size (xs ++ [x]) xs.length { d with historyBuffer := buffer, recordCount := count } := by
  intro i m hin
  have hok := htable i m hin
  have hlt := hin.lt
  have hle := hin.le
  refine ⟨hok.le, ?_⟩
  rw [take_append_of_le_length (Nat.le_refl _), take_append_of_le_length (by omega)]
  exact hok.zero_iff

variable {r : Record}

theorem update_entry (hd : Tracks size xs d) (hsize : 2 ≤ size) (hsmall : size ≤ intMax)
    (hr : r.event = .regionEntry) :
    wp (update r) (fun _ d' => Tracks size (xs ++ [r.signal]) d' ∧
      (2 ≤ (xs ++ [r.signal]).length → Reports size (xs ++ [r.signal]) d'))
      (fun _ _ => False) d := by
  have hmax := hd.recorded.maxSize_eq
  have hpos : 0 < d.historyBuffer.maxSize := by omega
  unfold update CircularBuffer.insert
  rw [if_pos hr, wp_bind, wp_zoom, wp_bind, wp_get, dif_neg (by omega), wp_set, wp_bind, wp_modify]
  have hrecorded : Recorded size (xs ++ [r.signal]) { d with
      historyBuffer := d.historyBuffer.push hpos r.signal
      recordCount := d.recordCount + 1 } := by
    refine ⟨hd.recorded.size_eq, ?_, hd.recorded.holds.push hpos, ?_, hd.recorded.length_eq⟩
    · rw [length_append, length_singleton, ← hd.recorded.count_eq]
    · exact (CircularBuffer.push_maxSize hpos).trans hmax
  have htable := table_append r.signal hd.table (d.historyBuffer.push hpos r.signal)
    (d.recordCount + 1)
  by_cases hxs : 2 ≤ (xs ++ [r.signal]).length
  · refine wp_mono_ok (calcPeriod_reports hrecorded ?_ hsize hsmall hxs)
      fun _ d' h => ⟨h.1, fun _ => h.2⟩
    rw [length_append, length_singleton, Nat.add_sub_cancel]
    exact htable
  · have hcount : d.recordCount + 1 < 2 := by
      have hcount := hrecorded.count_eq
      dsimp only at hcount
      omega
    unfold calcPeriod
    rw [wp_bind, wp_get]
    dsimp only
    rw [if_pos hcount, wp_pure]
    refine ⟨⟨hrecorded, fun i m hin => ?_⟩, fun h => absurd h hxs⟩
    have hpos := hin.pos
    have hlt := hin.lt
    omega

theorem tracks_make {size : ℤ} (h : make size = .ok d) :
    Tracks size.toNat [] d ∧ size.toNat ≤ intMax := by
  obtain ⟨hpos, hsize, hcount, hsized⟩ := make_eq_ok h
  refine ⟨⟨⟨hsize, hcount, ?_, hsized.maxSize_eq.trans hsize, ?_⟩, fun i m hin => ?_⟩, ?_⟩
  · unfold make at h
    dsimp only at h
    split_ifs at h
    cases h
    exact CircularBuffer.holds_make _
  · obtain ⟨n, rfl⟩ := Int.eq_ofNat_of_zero_le hpos
    unfold make at h
    dsimp only at h
    split_ifs at h
    cases h
    rw [length_replicate, ← Int.natCast_mul, ← Int.natCast_mul]
    rfl
  · exact absurd hin.lt (Nat.not_lt_zero _)
  · exact hsize ▸ hsized.small

theorem update_of_ne (hr : r.event ≠ .regionEntry) :
    wp (update r) (fun _ d' => d' = d) (fun _ _ => False) d := by
  unfold update
  rw [if_neg hr]
  rfl

theorem entered_concat_of_entry {rs : List Record} (hr : r.event = .regionEntry) :
    entered (rs ++ [r]) = entered rs ++ [r.signal] := by
  simp [entered, hr]

theorem entered_concat_of_ne {rs : List Record} (hr : r.event ≠ .regionEntry) :
    entered (rs ++ [r]) = entered rs := by
  simp [entered, hr]

end Update

end EditDistPeriodicityDetector

end Geopm
