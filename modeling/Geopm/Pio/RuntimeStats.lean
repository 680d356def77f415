import Geopm.Exception
import Geopm.Lib.Fallible
import Geopm.Lib.Moments

/-!
# Running statistics

`RuntimeStats` accumulates the statistics of some metrics without keeping their samples. Numbers are
those of an ordered field, a sample that is NaN is `none`, and the square root is a parameter.

* `MetricStats`, `RuntimeStats` : what is accumulated; `update`, `reset` : the methods;
* `RuntimeStats.count`, `first`, `last`, `min`, `max`, `mean`, `std` : the results, with the
  exception for an index that is out of range;
* `MetricReport.of` : the statistics of a list of samples;
* `Summarizes` : what is accumulated is that of a list of samples; `Summarizes.update`,
  `summarizes_reset`, `Summarizes.report`.
-/

namespace Geopm.Pio

open List

variable {K : Type} [Field K] [LinearOrder K]

/-- `stats_s`. -/
structure MetricStats (K : Type) where
  count : ℕ
  first : K
  last : K
  min : K
  max : K
  m1 : K
  m2 : K

namespace MetricStats

/-- The constructor. -/
def make : MetricStats K := ⟨0, 0, 0, 0, 0, 0, 0⟩

/-- The body of the loop of `RuntimeStats::update`. -/
def update (m : MetricStats K) : Option K → MetricStats K
  | none => m
  | some ss =>
    let m := { m with count := m.count + 1 }
    let m := if m.count = 1 then { m with first := ss, min := ss, max := ss } else m
    { m with
      last := ss
      min := if ss < m.min then ss else m.min
      max := if m.max < ss then ss else m.max
      m1 := m.m1 + ss
      m2 := m.m2 + ss * ss }

/-- The body of the loop of `RuntimeStats::reset`. -/
def reset (m : MetricStats K) : MetricStats K := { m with count := 0, m1 := 0, m2 := 0 }

/-- A member that is valid once there is a sample. -/
def valid (m : MetricStats K) (member : MetricStats K → K) : Option K :=
  if m.count ≠ 0 then some (member m) else none

/-- The mean of the samples. -/
def mean (m : MetricStats K) : Option K := m.valid fun m => m.m1 / m.count

/-- The estimate of the standard deviation. -/
def std (sqrt : K → K) (m : MetricStats K) : Option K :=
  if 1 < m.count then
    let result := (m.m2 - m.m1 * m.m1 / m.count) / ((m.count - 1 : ℕ) : K)
    some (if 0 < result then sqrt result else 0)
  else none

end MetricStats

/-- The members of `RuntimeStats`. -/
structure RuntimeStats (K : Type) where
  metricNames : List String
  metricStats : List (MetricStats K)

namespace RuntimeStats

/-- The constructor. -/
def make (metricNames : List String) : RuntimeStats K :=
  ⟨metricNames, metricNames.map fun _ => .make⟩

/-- `check_index`, and the statistics at the index. -/
def query {α : Type} (r : RuntimeStats K) (func : String) (result : MetricStats K → α)
    (metricIdx : ℤ) : Except Exception α :=
  match if metricIdx < 0 ∨ r.metricNames.length ≤ metricIdx then none
    else r.metricStats[metricIdx.toNat]? with
  | none =>
    .error ⟨"RuntimeStats::" ++ func ++ "(): metric_idx out of range: %", [metricIdx], .invalid⟩
  | some m => .ok (result m)

/-- `count`. -/
def count (r : RuntimeStats K) : ℤ → Except Exception ℕ := r.query "count" MetricStats.count

/-- `first`. -/
def first (r : RuntimeStats K) : ℤ → Except Exception (Option K) :=
  r.query "first" fun m => m.valid MetricStats.first

/-- `last`. -/
def last (r : RuntimeStats K) : ℤ → Except Exception (Option K) :=
  r.query "last" fun m => m.valid MetricStats.last

/-- `min`. -/
def min (r : RuntimeStats K) : ℤ → Except Exception (Option K) :=
  r.query "min" fun m => m.valid MetricStats.min

/-- `max`. -/
def max (r : RuntimeStats K) : ℤ → Except Exception (Option K) :=
  r.query "max" fun m => m.valid MetricStats.max

/-- `mean`. -/
def mean (r : RuntimeStats K) : ℤ → Except Exception (Option K) := r.query "mean" MetricStats.mean

/-- `std`. -/
def std (sqrt : K → K) (r : RuntimeStats K) : ℤ → Except Exception (Option K) :=
  r.query "std" (MetricStats.std sqrt)

/-- `reset`. -/
def reset (r : RuntimeStats K) : RuntimeStats K :=
  { r with metricStats := r.metricStats.map MetricStats.reset }

/-- `update`. -/
def update (r : RuntimeStats K) (sample : List (Option K)) : Except Exception (RuntimeStats K) :=
  if sample.length ≠ r.metricStats.length then
    .error ⟨"RuntimeStats::update(): invalid input vector size: %", [sample.length], .invalid⟩
  else .ok { r with metricStats := List.zipWith MetricStats.update r.metricStats sample }

end RuntimeStats

/-! ### What the statistics are -/

/-- The statistics of one metric in a report. -/
structure MetricReport (K : Type) where
  count : K
  first : Option K
  last : Option K
  min : Option K
  max : Option K
  mean : Option K
  std : Option K

/-- The statistics of a list of samples. -/
def MetricReport.of (sqrt : K → K) (xs : List K) : MetricReport K where
  count := xs.length
  first := xs.head?
  last := xs.getLast?
  min := xs.min?
  max := xs.max?
  mean := if xs = [] then none else some (Moments.mean xs)
  std := if xs.length < 2 then none else some (sqrt (Moments.variance xs))

/-- The statistics of one metric, as the methods return them. -/
def MetricStats.report (sqrt : K → K) (m : MetricStats K) : MetricReport K where
  count := m.count
  first := m.valid MetricStats.first
  last := m.valid MetricStats.last
  min := m.valid MetricStats.min
  max := m.valid MetricStats.max
  mean := m.mean
  std := m.std sqrt

namespace MetricStats

/-- What is accumulated is that of the samples `xs`. -/
structure Summarizes (m : MetricStats K) (xs : List K) : Prop where
  count_eq : m.count = xs.length
  m1_eq : m.m1 = xs.sum
  m2_eq : m.m2 = (xs.map fun x => x * x).sum
  first_eq : xs ≠ [] → xs.head? = some m.first
  last_eq : xs ≠ [] → xs.getLast? = some m.last
  min_eq : xs ≠ [] → xs.min? = some m.min
  max_eq : xs ≠ [] → xs.max? = some m.max

variable {m : MetricStats K} {xs : List K}

/-- Nothing that was accumulated before counts after a reset. -/
theorem summarizes_reset (m : MetricStats K) : m.reset.Summarizes [] :=
  ⟨rfl, rfl, rfl, fun h => absurd rfl h, fun h => absurd rfl h, fun h => absurd rfl h,
    fun h => absurd rfl h⟩

theorem update_first (h : m.count = 0) (x : K) :
    m.update (some x) = ⟨1, x, x, x, x, m.m1 + x, m.m2 + x * x⟩ := by
  simp [MetricStats.update, h]

theorem update_next (h : m.count ≠ 0) (x : K) :
    m.update (some x) = ⟨m.count + 1, m.first, x, Min.min m.min x, Max.max m.max x, m.m1 + x,
      m.m2 + x * x⟩ := by
  have hone : m.count + 1 ≠ 1 := by omega
  have hmin : (if x < m.min then x else m.min) = Min.min m.min x := by
    split_ifs with hlt
    · exact (min_eq_right hlt.le).symm
    · exact (min_eq_left (not_lt.mp hlt)).symm
  have hmax : (if m.max < x then x else m.max) = Max.max m.max x := by
    split_ifs with hlt
    · exact (max_eq_right hlt.le).symm
    · exact (max_eq_left (not_lt.mp hlt)).symm
  rw [← hmin, ← hmax]
  simp only [MetricStats.update, if_neg hone]

theorem Summarizes.update (hm : m.Summarizes xs) (x : K) :
    (m.update (some x)).Summarizes (xs ++ [x]) := by
  have hcount := hm.count_eq
  have hm1 := hm.m1_eq
  have hm2 := hm.m2_eq
  cases xs with
  | nil =>
    rw [update_first hcount]
    exact ⟨rfl, by simp [hm1], by simp [hm2], fun _ => rfl, fun _ => rfl, fun _ => rfl,
      fun _ => rfl⟩
  | cons y ys =>
    have hne : y :: ys ≠ [] := cons_ne_nil _ _
    have hmin := hm.min_eq hne
    have hmax := hm.max_eq hne
    rw [min?_cons', Option.some.injEq] at hmin
    rw [max?_cons', Option.some.injEq] at hmax
    rw [update_next (by simp [hcount])]
    refine ⟨by simp [hcount], by simp [hm1, add_assoc], by simp [hm2, add_assoc],
      fun _ => hm.first_eq hne, fun _ => getLast?_concat .., fun _ => ?_, fun _ => ?_⟩
    · rw [cons_append, min?_cons', List.foldl_append, hmin]
      rfl
    · rw [cons_append, max?_cons', List.foldl_append, hmax]
      rfl

theorem Summarizes.valid_eq (hm : m.Summarizes xs) {member : MetricStats K → K}
    {result : Option K} (hnil : xs = [] → result = none)
    (hcons : xs ≠ [] → result = some (member m)) : m.valid member = result := by
  rw [valid, hm.count_eq]
  by_cases hxs : xs = []
  · rw [hnil hxs, if_neg (by simp [hxs])]
  · rw [hcons hxs, if_pos (by simp [hxs])]

theorem Summarizes.report [CharZero K] (hm : m.Summarizes xs) {sqrt : K → K}
    (hsqrt : ∀ x ≤ 0, sqrt x = 0) : m.report sqrt = .of sqrt xs := by
  have hfirst : m.valid first = xs.head? := hm.valid_eq (fun h => by rw [h]; rfl) hm.first_eq
  have hlast : m.valid last = xs.getLast? := hm.valid_eq (fun h => by rw [h]; rfl) hm.last_eq
  have hmin : m.valid min = xs.min? := hm.valid_eq (fun h => by rw [h]; rfl) hm.min_eq
  have hmax : m.valid max = xs.max? := hm.valid_eq (fun h => by rw [h]; rfl) hm.max_eq
  have hmean : m.mean = if xs = [] then none else some (Moments.mean xs) := by
    refine hm.valid_eq (fun h => if_pos h) fun h => ?_
    rw [if_neg h, Moments.mean, hm.m1_eq, hm.count_eq]
  have hstd : m.std sqrt =
      if xs.length < 2 then none else some (sqrt (Moments.variance xs)) := by
    rw [std, hm.count_eq]
    by_cases hshort : xs.length < 2
    · rw [if_pos hshort, if_neg (by omega)]
    · have hne : xs ≠ [] := by
        rintro rfl
        exact hshort Nat.two_pos
      rw [if_neg hshort, if_pos (by omega), Moments.variance_eq hne, hm.m1_eq, hm.m2_eq]
      refine congrArg some ?_
      split_ifs with hpos
      · rfl
      · exact (hsqrt _ (not_lt.mp hpos)).symm
  rw [MetricStats.report, MetricReport.of, hm.count_eq, hfirst, hlast, hmin, hmax, hmean, hstd]

end MetricStats

namespace RuntimeStats

variable {r : RuntimeStats K}

/-- What is accumulated for each metric is that of its samples. -/
structure Summarizes (r : RuntimeStats K) (columns : List (List K)) : Prop where
  length_eq : r.metricNames.length = columns.length
  stats : List.Forall₂ MetricStats.Summarizes r.metricStats columns

theorem summarizes_make (metricNames : List String) :
    (make metricNames : RuntimeStats K).Summarizes (metricNames.map fun _ => []) where
  length_eq := (length_map _).symm
  stats := by
    rw [make, forall₂_map_left_iff, forall₂_map_right_iff]
    exact forall₂_same.mpr fun _ _ => MetricStats.summarizes_reset .make

variable {columns : List (List K)}

theorem Summarizes.reset (hr : r.Summarizes columns) :
    r.reset.Summarizes (columns.map fun _ => []) where
  length_eq := by rw [length_map]; exact hr.length_eq
  stats := by
    rw [RuntimeStats.reset, forall₂_map_left_iff, forall₂_map_right_iff]
    exact hr.stats.imp fun m _ _ => MetricStats.summarizes_reset m

/-- A vector of samples of the right size is added to the samples of the metrics. -/
theorem Summarizes.update (hr : r.Summarizes columns)
    {sample : List (Option K)} (hsample : sample.length = columns.length) :
    ∃ r', r.update sample = .ok r' ∧ r'.metricNames = r.metricNames ∧
      r'.Summarizes (List.zipWith (fun column s => column ++ s.toList) columns sample) := by
  have hlength := hr.stats.length_eq
  rw [RuntimeStats.update, if_neg (by omega)]
  refine ⟨_, rfl, rfl, ?_, ?_⟩
  · rw [hr.length_eq, length_zipWith, hsample, Nat.min_self]
  · have hstats := hr.stats
    dsimp only
    generalize r.metricStats = stats at hstats
    clear hlength hr
    induction hstats generalizing sample with
    | nil => exact .nil
    | cons hm hrest ih =>
      cases sample with
      | nil => cases hsample
      | cons s sample =>
        refine .cons ?_ (ih (Nat.succ.inj hsample))
        cases s with
        | none => simpa [MetricStats.update] using hm
        | some x => exact hm.update x

theorem Summarizes.query_eq (hr : r.Summarizes columns) {i : ℕ}
    (hi : i < columns.length) :
    ∃ m : MetricStats K, m.Summarizes columns[i] ∧
      ∀ {α : Type} (func : String) (result : MetricStats K → α),
        r.query func result i = .ok (result m) := by
  have hlength := hr.stats.length_eq
  have hget : i < r.metricStats.length := by omega
  refine ⟨r.metricStats[i], hr.stats.get hget hi, fun func result => ?_⟩
  have hnames := hr.length_eq
  rw [query, if_neg (by omega), Int.toNat_natCast, getElem?_eq_getElem hget]

end RuntimeStats

end Geopm.Pio
