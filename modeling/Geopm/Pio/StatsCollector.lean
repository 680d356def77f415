import Geopm.Lib.Prog
import Geopm.Pio.RuntimeStats

/-!
# Statistics collector

A `StatsCollector` samples its requests in each update, and reports their statistics and those of
the times of the updates. The square root, the name of the host and the text of a number are
parameters.

* `StatsCollector.update`, `reset`, `reportStruct`, `reportYaml` : the methods;
* `Report.of`, `reportText` : the report of a list of batches, and its text;
* `Collects` : what the members stand for; `Collects.update`, `Collects.reset`,
  `Collects.reportYaml`;
* `collector_spec` : after any sequence of updates, reports and resets, the reports are those of the
  batches since the last reset.
-/

namespace Geopm.Pio

open Prog
open List hiding get modify set

variable {K : Type} [Field K] [LinearOrder K]

/-- What an update finds on the platform: the value of each pushed signal, the time, and the date
that `geopm_time_real_to_iso_string` writes for it. -/
structure Batch (K : Type) where
  sample : ℕ → Option K
  time : K
  date : {date : String // date ≠ ""}

/-- `report_s`. -/
structure Report (K : Type) where
  host : String
  sampleTimeFirst : String
  timeTotal : K
  sampleCount : K
  periodMean : K
  periodStd : K
  metricNames : List String
  metricStats : List (MetricReport K)

/-- The members of `StatsCollectorImp`. -/
structure StatsCollector (K : Type) where
  metricNames : List String
  pioIdx : List ℕ
  stats : RuntimeStats K
  updateCount : ℕ
  timeSample : K
  timeDeltaM1 : K
  timeDeltaM2 : K
  timeBeginStr : String
  timeBegin : K
  isCached : Bool
  reportCache : String

/-- The lines of a report before its metrics. -/
def headText (number : Option K → String) (report : Report K) : String :=
  "host: \"" ++ report.host ++ "\"\n" ++
  "sample-time-first: \"" ++ report.sampleTimeFirst ++ "\"\n" ++
  "sample-time-total: " ++ number report.timeTotal ++ "\n" ++
  "sample-count: " ++ number report.sampleCount ++ "\n" ++
  "sample-period-mean: " ++ number report.periodMean ++ "\n" ++
  "sample-period-std: " ++ number report.periodStd ++ "\n" ++
  "metrics:\n"

/-- The lines of one metric. -/
def metricText (number : Option K → String) (metricName : String) (count : ℕ)
    (first last min max mean std : Option K) : String :=
  "  " ++ metricName ++ ":\n" ++
  "    count: " ++ toString count ++ "\n" ++
  "    first: " ++ number first ++ "\n" ++
  "    last: " ++ number last ++ "\n" ++
  "    min: " ++ number min ++ "\n" ++
  "    max: " ++ number max ++ "\n" ++
  "    mean: " ++ number mean ++ "\n" ++
  "    std: " ++ number std ++ "\n"

namespace StatsCollector

/-- The constructor, where each request has been pushed at an index. -/
def make (requests : List (String × ℕ)) : StatsCollector K where
  metricNames := requests.map Prod.fst
  pioIdx := requests.map Prod.snd
  stats := .make (requests.map Prod.fst)
  updateCount := 0
  timeSample := 0
  timeDeltaM1 := 0
  timeDeltaM2 := 0
  timeBeginStr := ""
  timeBegin := 0
  isCached := false
  reportCache := ""

/-- The part of `update` that deals with the time. -/
def advance (b : Batch K) (c : StatsCollector K) : StatsCollector K :=
  let timeLast := c.timeSample
  let c := { c with isCached := false, updateCount := c.updateCount + 1, timeSample := b.time }
  if c.timeBeginStr = "" then { c with timeBegin := c.timeSample, timeBeginStr := b.date }
  else
    let timeDelta := c.timeSample - timeLast
    { c with
      timeDeltaM1 := c.timeDeltaM1 + timeDelta
      timeDeltaM2 := c.timeDeltaM2 + timeDelta * timeDelta }

/-- `update`. -/
def update (b : Batch K) : EStateM Exception (StatsCollector K) Unit := do
  modify (advance b)
  let c ← get
  let stats ← ret (c.stats.update (c.pioIdx.map b.sample))
  modify fun c => { c with stats := stats }

/-- `reset`. -/
def reset (c : StatsCollector K) : StatsCollector K :=
  { c with
    isCached := false
    timeBeginStr := ""
    timeBegin := 0
    updateCount := 0
    timeSample := 0
    timeDeltaM1 := 0
    timeDeltaM2 := 0
    stats := c.stats.reset }

/-- The body of the loop of `report_struct`. -/
def metricReport (sqrt : K → K) (stats : RuntimeStats K) (metricIdx : ℕ) :
    Except Exception (MetricReport K) := do
  let count ← stats.count metricIdx
  let first ← stats.first metricIdx
  let last ← stats.last metricIdx
  let min ← stats.min metricIdx
  let max ← stats.max metricIdx
  let mean ← stats.mean metricIdx
  let std ← stats.std sqrt metricIdx
  return ⟨count, first, last, min, max, mean, std⟩

/-- The body of the loop of `report_yaml_curr`. -/
def metricLines (sqrt : K → K) (number : Option K → String) (stats : RuntimeStats K)
    (metricName : String) (metricIdx : ℕ) : Except Exception String := do
  let count ← stats.count metricIdx
  let first ← stats.first metricIdx
  let last ← stats.last metricIdx
  let min ← stats.min metricIdx
  let max ← stats.max metricIdx
  let mean ← stats.mean metricIdx
  let std ← stats.std sqrt metricIdx
  return metricText number metricName count first last min max mean std

def reportStruct (sqrt : K → K) (host : String) (c : StatsCollector K) :
    Except Exception (Report K) := do
  let n := c.updateCount
  let timeDeltaMean := if 1 < n then c.timeDeltaM1 / ((n - 1 : ℕ) : K) else 0
  let timeDeltaStd :=
    if 2 < n then
      sqrt ((c.timeDeltaM2 - c.timeDeltaM1 * c.timeDeltaM1 / ((n - 1 : ℕ) : K)) / ((n - 2 : ℕ) : K))
    else 0
  let metricStats ← (List.range c.metricNames.length).mapM (metricReport sqrt c.stats)
  return ⟨host, c.timeBeginStr, c.timeSample - c.timeBegin, n, timeDeltaMean, timeDeltaStd,
    c.metricNames, metricStats⟩

def reportYamlCurr (sqrt : K → K) (host : String) (number : Option K → String)
    (c : StatsCollector K) : Except Exception String := do
  let report ← c.reportStruct sqrt host
  let metrics ← c.metricNames.zipIdx.mapM fun (metricName, metricIdx) =>
    metricLines sqrt number c.stats metricName metricIdx
  return headText number report ++ String.join metrics

def reportYaml (sqrt : K → K) (host : String) (number : Option K → String) :
    EStateM Exception (StatsCollector K) String := do
  let c ← get
  if c.isCached then return c.reportCache
  else
    let text ← ret (c.reportYamlCurr sqrt host number)
    set { c with reportCache := text, isCached := true }
    return text

end StatsCollector

/-! ### What the reports are -/

/-- The samples of a signal that are not NaN. -/
def column (batches : List (Batch K)) (idx : ℕ) : List K := batches.filterMap fun b => b.sample idx

/-- The times between the updates. -/
def periods (batches : List (Batch K)) : List K := Moments.differences (batches.map Batch.time)

/-- The report of a list of batches. -/
def Report.of (sqrt : K → K) (host : String) (requests : List (String × ℕ))
    (batches : List (Batch K)) : Report K where
  host := host
  sampleTimeFirst := (batches.head?.map fun b => b.date.1).getD ""
  timeTotal := (batches.getLast?.map Batch.time).getD 0 - (batches.head?.map Batch.time).getD 0
  sampleCount := batches.length
  periodMean := Moments.mean (periods batches)
  periodStd := sqrt (Moments.variance (periods batches))
  metricNames := requests.map Prod.fst
  metricStats := requests.map fun request => .of sqrt (column batches request.2)

/-- The text of the report of a list of batches. -/
def reportText (sqrt : K → K) (host : String) (number : Option K → String)
    (requests : List (String × ℕ)) (batches : List (Batch K)) : String :=
  headText number (.of sqrt host requests batches) ++
    String.join (requests.map fun request =>
      let samples := column batches request.2
      let report := MetricReport.of sqrt samples
      metricText number request.1 samples.length report.first report.last report.min report.max
        report.mean report.std)

variable {sqrt : K → K} {host : String} {number : Option K → String} {requests : List (String × ℕ)}

namespace StatsCollector

/-- The members stand for the batches since the last reset, and a text that is cached is theirs. -/
structure Collects (sqrt : K → K) (host : String) (number : Option K → String)
    (requests : List (String × ℕ)) (batches : List (Batch K)) (c : StatsCollector K) : Prop where
  metricNames_eq : c.metricNames = requests.map Prod.fst
  pioIdx_eq : c.pioIdx = requests.map Prod.snd
  stats : c.stats.Summarizes (requests.map fun request => column batches request.2)
  updateCount_eq : c.updateCount = batches.length
  timeSample_eq : c.timeSample = (batches.getLast?.map Batch.time).getD 0
  timeBegin_eq : c.timeBegin = (batches.head?.map Batch.time).getD 0
  timeBeginStr_eq : c.timeBeginStr = (batches.head?.map fun b => b.date.1).getD ""
  timeDeltaM1_eq : c.timeDeltaM1 = (periods batches).sum
  timeDeltaM2_eq : c.timeDeltaM2 = ((periods batches).map fun t => t * t).sum
  reportCache_eq : c.isCached = true → c.reportCache = reportText sqrt host number requests batches

variable {batches : List (Batch K)} {c : StatsCollector K}

theorem collects_make (sqrt : K → K) (host : String) (number : Option K → String)
    (requests : List (String × ℕ)) : (make requests).Collects sqrt host number requests [] where
  metricNames_eq := rfl
  pioIdx_eq := rfl
  stats := by
    simpa [make, column, Function.comp_def] using
      RuntimeStats.summarizes_make (K := K) (requests.map Prod.fst)
  updateCount_eq := rfl
  timeSample_eq := rfl
  timeBegin_eq := rfl
  timeBeginStr_eq := rfl
  timeDeltaM1_eq := rfl
  timeDeltaM2_eq := rfl
  reportCache_eq := fun h => absurd h Bool.false_ne_true

/-- A reset leaves nothing of what was collected. -/
theorem Collects.reset (hc : c.Collects sqrt host number requests batches) :
    c.reset.Collects sqrt host number requests [] where
  metricNames_eq := hc.metricNames_eq
  pioIdx_eq := hc.pioIdx_eq
  stats := by simpa [StatsCollector.reset, column, Function.comp_def] using hc.stats.reset
  updateCount_eq := rfl
  timeSample_eq := rfl
  timeBegin_eq := rfl
  timeBeginStr_eq := rfl
  timeDeltaM1_eq := rfl
  timeDeltaM2_eq := rfl
  reportCache_eq := fun h => absurd h Bool.false_ne_true

section

variable (hc : c.Collects sqrt host number requests batches)
include hc

theorem Collects.stats_update (b : Batch K) :
    ∃ stats, c.stats.update (c.pioIdx.map b.sample) = .ok stats ∧
      stats.Summarizes (requests.map fun request => column (batches ++ [b]) request.2) := by
  have hlength : (c.pioIdx.map b.sample).length =
      (requests.map fun request => column batches request.2).length := by
    rw [hc.pioIdx_eq]
    simp
  obtain ⟨stats, hupdate, -, hstats⟩ := hc.stats.update hlength
  refine ⟨stats, hupdate, ?_⟩
  have hcolumns : List.zipWith (fun xs (s : Option K) => xs ++ s.toList)
      (requests.map fun request => column batches request.2) (c.pioIdx.map b.sample) =
        requests.map fun request => column (batches ++ [b]) request.2 := by
    rw [hc.pioIdx_eq, map_map, zipWith_map, zipWith_self]
    refine map_congr_left fun request _ => ?_
    cases hs : b.sample request.2 <;> simp [column, hs]
  rwa [hcolumns] at hstats

/-- The first batch since the last reset, and each one after it, is added to the others. -/
theorem Collects.update (b : Batch K) :
    ∃ c', StatsCollector.update b c = .ok () c' ∧
      c'.Collects sqrt host number requests (batches ++ [b]) := by
  obtain ⟨stats, hupdate, hstats⟩ := hc.stats_update b
  have hmembers : (advance b c).stats = c.stats ∧ (advance b c).pioIdx = c.pioIdx := by
    rw [advance]
    split_ifs <;> exact ⟨rfl, rfl⟩
  refine ⟨{ advance b c with stats := stats }, ?_, ?_⟩
  · change (ret ((advance b c).stats.update ((advance b c).pioIdx.map b.sample)) >>= fun stats =>
      modify fun c => { c with stats := stats } :
        EStateM Exception (StatsCollector K) Unit) (advance b c) = _
    rw [hmembers.1, hmembers.2, hupdate]
    rfl
  · cases batches with
    | nil =>
      rw [show advance b c = _ from if_pos hc.timeBeginStr_eq]
      exact ⟨hc.metricNames_eq, hc.pioIdx_eq, hstats, congrArg (· + 1) hc.updateCount_eq, rfl, rfl,
        rfl, hc.timeDeltaM1_eq, hc.timeDeltaM2_eq, fun h => absurd h Bool.false_ne_true⟩
    | cons b₀ bs =>
      have hdate : c.timeBeginStr ≠ "" := by
        rw [hc.timeBeginStr_eq]
        exact b₀.date.2
      obtain ⟨last, hlast⟩ : ∃ last, (b₀ :: bs).getLast? = some last :=
        ⟨_, getLast?_eq_some_getLast (cons_ne_nil _ _)⟩
      have htime : c.timeSample = last.time := by
        rw [hc.timeSample_eq, hlast]
        rfl
      have hperiods : periods (b₀ :: bs ++ [b]) = periods (b₀ :: bs) ++ [b.time - last.time] := by
        have htimes : ((b₀ :: bs).map Batch.time).getLast? = some last.time := by
          rw [getLast?_map, hlast]
          rfl
        rw [periods, map_append]
        exact Moments.differences_concat htimes b.time
      rw [show advance b c = _ from if_neg hdate]
      refine ⟨hc.metricNames_eq, hc.pioIdx_eq, hstats, ?_, ?_, hc.timeBegin_eq, hc.timeBeginStr_eq,
        ?_, ?_, fun h => absurd h Bool.false_ne_true⟩
      · rw [length_append, ← hc.updateCount_eq]
        rfl
      · rw [getLast?_concat]
        rfl
      · rw [hperiods, sum_append, sum_singleton, ← hc.timeDeltaM1_eq, htime]
      · rw [hperiods, map_append, sum_append, map_singleton, sum_singleton,
          ← hc.timeDeltaM2_eq, htime]

/-- At the index of a request, the methods of `RuntimeStats` return the statistics of its column. -/
theorem Collects.query_eq [CharZero K]
    (hsqrt : ∀ x ≤ 0, sqrt x = 0) {i : ℕ} (hi : i < requests.length) :
    c.stats.count i = .ok (column batches requests[i].2).length ∧
      c.stats.first i = .ok (MetricReport.of sqrt (column batches requests[i].2)).first ∧
      c.stats.last i = .ok (MetricReport.of sqrt (column batches requests[i].2)).last ∧
      c.stats.min i = .ok (MetricReport.of sqrt (column batches requests[i].2)).min ∧
      c.stats.max i = .ok (MetricReport.of sqrt (column batches requests[i].2)).max ∧
      c.stats.mean i = .ok (MetricReport.of sqrt (column batches requests[i].2)).mean ∧
      c.stats.std sqrt i = .ok (MetricReport.of sqrt (column batches requests[i].2)).std := by
  have hlength : i < (requests.map fun request => column batches request.2).length := by
    rwa [length_map]
  obtain ⟨m, hm, hquery⟩ := hc.stats.query_eq hlength
  rw [getElem_map] at hm
  rw [← hm.report hsqrt, ← hm.count_eq]
  exact ⟨hquery _ _, hquery _ _, hquery _ _, hquery _ _, hquery _ _, hquery _ _, hquery _ _⟩

theorem Collects.periods_eq [CharZero K]
    (hsqrt : ∀ x ≤ 0, sqrt x = 0) :
    (if 1 < c.updateCount then c.timeDeltaM1 / ((c.updateCount - 1 : ℕ) : K) else 0) =
        Moments.mean (periods batches) ∧
      (if 2 < c.updateCount then
        sqrt ((c.timeDeltaM2 - c.timeDeltaM1 * c.timeDeltaM1 / ((c.updateCount - 1 : ℕ) : K)) /
          ((c.updateCount - 2 : ℕ) : K))
      else 0) = sqrt (Moments.variance (periods batches)) := by
  have hlength : (periods batches).length = c.updateCount - 1 := by
    rw [periods, Moments.length_differences, length_map, hc.updateCount_eq]
  rw [hc.timeDeltaM1_eq, hc.timeDeltaM2_eq, ← hlength]
  constructor
  · split_ifs with hone
    · rfl
    · have hnil : periods batches = [] := length_eq_zero_iff.mp (by omega)
      simp [hnil, Moments.mean]
  · split_ifs with htwo
    · have hne : periods batches ≠ [] := length_pos_iff.mp (by omega)
      rw [Moments.variance_eq hne, hlength, Nat.sub_sub]
    · -- with one period or none the estimate has no degree of freedom
      have hzero : (periods batches).length - 1 = 0 := by omega
      rw [Moments.variance, hzero, Nat.cast_zero, div_zero, hsqrt 0 le_rfl]

theorem Collects.reportStruct_eq [CharZero K]
    (hsqrt : ∀ x ≤ 0, sqrt x = 0) :
    c.reportStruct sqrt host = .ok (.of sqrt host requests batches) := by
  obtain ⟨hmean, hstd⟩ := hc.periods_eq hsqrt
  have hnames : c.metricNames.length = requests.length := by
    rw [hc.metricNames_eq, length_map]
  have hmetrics : (List.range c.metricNames.length).mapM (metricReport sqrt c.stats) =
      .ok (requests.map fun request => .of sqrt (column batches request.2)) := by
    refine mapM_eq_ok.mpr (forall₂_iff_get.mpr ⟨by simp [hnames], fun i hi hi' => ?_⟩)
    rw [length_map] at hi'
    obtain ⟨hcount, hfirst, hlast, hmin, hmax, hmean, hstd⟩ := hc.query_eq hsqrt hi'
    simp only [get_eq_getElem, getElem_range, getElem_map, metricReport, hcount,
      hfirst, hlast, hmin, hmax, hmean, hstd]
    rfl
  rw [reportStruct, hmetrics, hmean, hstd, hc.updateCount_eq, hc.timeSample_eq, hc.timeBegin_eq,
    hc.timeBeginStr_eq, hc.metricNames_eq]
  rfl

theorem Collects.reportYamlCurr_eq [CharZero K]
    (hsqrt : ∀ x ≤ 0, sqrt x = 0) :
    c.reportYamlCurr sqrt host number = .ok (reportText sqrt host number requests batches) := by
  have hmetrics : (c.metricNames.zipIdx.mapM fun (p : String × ℕ) =>
      metricLines sqrt number c.stats p.1 p.2) = .ok (requests.map fun request =>
        let samples := column batches request.2
        let report := MetricReport.of sqrt samples
        metricText number request.1 samples.length report.first report.last report.min report.max
          report.mean report.std) := by
    refine mapM_eq_ok.mpr (forall₂_iff_get.mpr
      ⟨by simp [hc.metricNames_eq], fun i hi hi' => ?_⟩)
    rw [length_map] at hi'
    obtain ⟨hcount, hfirst, hlast, hmin, hmax, hmean, hstd⟩ := hc.query_eq hsqrt hi'
    simp only [get_eq_getElem, getElem_zipIdx, Nat.zero_add, getElem_map,
      metricLines, hcount, hfirst, hlast, hmin, hmax, hmean, hstd, hc.metricNames_eq]
    rfl
  rw [reportYamlCurr, hc.reportStruct_eq hsqrt]
  change ((c.metricNames.zipIdx.mapM fun (p : String × ℕ) =>
    metricLines sqrt number c.stats p.1 p.2) >>= _) = _
  rw [hmetrics]
  rfl

/-- The text is that of the batches since the last reset, whether it is cached or not. -/
theorem Collects.reportYaml [CharZero K]
    (hsqrt : ∀ x ≤ 0, sqrt x = 0) :
    ∃ c', StatsCollector.reportYaml sqrt host number c =
        .ok (reportText sqrt host number requests batches) c' ∧
      c'.Collects sqrt host number requests batches := by
  change ∃ c', (if c.isCached = true then _ else _ :
    EStateM Exception (StatsCollector K) String) c = _ ∧ _
  by_cases hcached : c.isCached = true
  · rw [if_pos hcached, ← hc.reportCache_eq hcached]
    exact ⟨c, rfl, hc⟩
  · rw [if_neg hcached, hc.reportYamlCurr_eq hsqrt]
    exact ⟨_, rfl, { hc with reportCache_eq := fun _ => rfl }⟩

end

end StatsCollector

/-! ### Runs -/

/-- A call on a collector. -/
inductive StatsCall (K : Type) where
  | update (b : Batch K)
  | reportStruct
  | reportYaml
  | reset

namespace StatsCollector

/-- A call on a collector, whose result is dropped. -/
def call (sqrt : K → K) (host : String) (number : Option K → String) :
    StatsCall K → EStateM Exception (StatsCollector K) Unit
  | .update b => update b
  | .reportStruct => do
    let c ← get
    let _ ← ret (c.reportStruct sqrt host)
  | .reportYaml => do
    let _ ← reportYaml sqrt host number
  | .reset => modify reset

/-- The batches of the updates since the last reset, after another call. -/
def addCall (batches : List (Batch K)) : StatsCall K → List (Batch K)
  | .update b => batches ++ [b]
  | .reset => []
  | _ => batches

/-- The batches of the updates since the last reset. -/
def sinceReset (calls : List (StatsCall K)) : List (Batch K) := calls.foldl addCall []

/-- One call. -/
theorem Collects.call [CharZero K] {batches : List (Batch K)} {c : StatsCollector K}
    (hc : c.Collects sqrt host number requests batches) (hsqrt : ∀ x ≤ 0, sqrt x = 0)
    (k : StatsCall K) :
    ∃ c', StatsCollector.call sqrt host number k c = .ok () c' ∧
      c'.Collects sqrt host number requests (addCall batches k) := by
  cases k with
  | update b => exact hc.update b
  | reportStruct =>
    refine ⟨c, ?_, hc⟩
    change (ret (c.reportStruct sqrt host) >>= fun _ => pure () :
      EStateM Exception (StatsCollector K) Unit) c = _
    rw [hc.reportStruct_eq hsqrt]
    rfl
  | reportYaml =>
    obtain ⟨c', hreport, hc'⟩ := hc.reportYaml hsqrt
    exact ⟨c', bind_of_ok hreport, hc'⟩
  | reset => exact ⟨c.reset, rfl, hc.reset⟩

theorem Collects.calls [CharZero K] {batches : List (Batch K)} {c : StatsCollector K}
    (hc : c.Collects sqrt host number requests batches) (hsqrt : ∀ x ≤ 0, sqrt x = 0)
    (calls : List (StatsCall K)) :
    ∃ c', calls.forM (StatsCollector.call sqrt host number) c = .ok () c' ∧
      c'.Collects sqrt host number requests (calls.foldl addCall batches) := by
  induction calls generalizing batches c with
  | nil => exact ⟨c, rfl, hc⟩
  | cons k calls ih =>
    obtain ⟨c', hcall, hc'⟩ := hc.call hsqrt k
    obtain ⟨c'', hcalls, hc''⟩ := ih hc'
    exact ⟨c'', (bind_of_ok hcall).trans hcalls, hc''⟩

end StatsCollector

open StatsCollector in
/-- After any calls, the reports are those of the batches since the last reset. -/
theorem collector_spec (host : String) (number : Option ℝ → String) (requests : List (String × ℕ))
    (calls : List (StatsCall ℝ)) :
    ∃ c, calls.forM (call Real.sqrt host number) (make requests) = .ok () c ∧
      c.updateCount = (sinceReset calls).length ∧
      c.reportStruct Real.sqrt host = .ok (.of Real.sqrt host requests (sinceReset calls)) ∧
      ∃ c', reportYaml Real.sqrt host number c =
        .ok (reportText Real.sqrt host number requests (sinceReset calls)) c' := by
  have hsqrt : ∀ x ≤ 0, Real.sqrt x = 0 := fun _ => Real.sqrt_eq_zero_of_nonpos
  obtain ⟨c, hrun, hc⟩ := (collects_make Real.sqrt host number requests).calls hsqrt calls
  obtain ⟨c', hreport, -⟩ := hc.reportYaml hsqrt
  exact ⟨c, hrun, hc.updateCount_eq, hc.reportStruct_eq hsqrt, c', hreport⟩

end Geopm.Pio
