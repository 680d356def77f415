import Geopm.App.Record

/-!
# Sums over regions, epochs and periods

* `SumAccumulator` : what a signal has changed while a condition was true;
* `SumSignal` : a pushed signal with its accumulators;
* `SampleAggregator` : the signals that are summed, `update` : the step after every batch;
* `sampleApplication`, `sampleRegion`, … : the accumulated values.

The numbers of a sample are exact.  The signals that are averaged are not modelled.
-/

namespace Geopm

/-- `GEOPM_REGION_HASH_EPOCH`. -/
def regionHashEpoch : ℕ := 0x66c91423

/-- `GEOPM_REGION_HASH_APP`. -/
def regionHashApp : ℕ := 0x9d540c53

/-- A sample that is a number, or NaN. -/
abbrev Sample := Option ℚ

/-- The cast of a sample to an `int`.  That of NaN is undefined; the processors make the least `int`
of it. -/
def Sample.toInt : Sample → ℤ
  | none => -2 ^ 31
  | some x => x.num.tdiv x.den

def sampleToHash (sample : Sample) : ℕ :=
  match sample with
  | none => regionHashInvalid
  | some x => x.floor.toNat

/-! ### The accumulator of a sum -/

/-- The members of `SumAccumulatorImp`. -/
structure SumAccumulator where
  total : ℚ := 0
  current : ℚ := 0
  last : ℚ := 0
deriving DecidableEq, Repr

namespace SumAccumulator

/-- `update`. -/
def update (a : SumAccumulator) (delta : Sample) : SumAccumulator :=
  match delta with
  | none => a
  | some x => { a with total := a.total + x, current := a.current + x }

/-- `enter`. -/
def enter (a : SumAccumulator) : SumAccumulator := { a with current := 0 }

/-- `exit`. -/
def exit (a : SumAccumulator) : SumAccumulator := { a with last := a.current }

def intervalTotal (a : SumAccumulator) : ℚ := a.last

variable {a : SumAccumulator} {x : ℚ}

@[simp] theorem total_update : (a.update (some x)).total = a.total + x := rfl

@[simp] theorem current_update : (a.update (some x)).current = a.current + x := rfl

@[simp] theorem last_update : (a.update (some x)).last = a.last := rfl

@[simp] theorem total_enter : a.enter.total = a.total := rfl

@[simp] theorem current_enter : a.enter.current = 0 := rfl

@[simp] theorem last_enter : a.enter.last = a.last := rfl

@[simp] theorem total_exit : a.exit.total = a.total := rfl

@[simp] theorem last_exit : a.exit.last = a.current := rfl

end SumAccumulator

/-! ### A signal -/

/-- `m_sum_signal_s`.  The iterator into the map of the regions is the hash it points to. -/
structure SumSignal where
  sampleLast : Sample := none
  regionHashIdx : ℤ
  regionHashLast : ℕ := regionHashInvalid
  epochCountIdx : ℤ
  epochCountLast : ℤ := 0
  appAccum : SumAccumulator := {}
  epochAccum : SumAccumulator := {}
  periodAccum : SumAccumulator := {}
  regionAccum : ℕ → Option SumAccumulator := fun _ => none
  regionAccumIt : ℕ := regionHashInvalid

namespace SumSignal

/-- `sample_aggregator_emplace_hash`: the iterator points to the accumulator of the hash. -/
def emplaceHash (signal : SumSignal) (hash : ℕ) : SumSignal :=
  { signal with
    regionAccum :=
      if (signal.regionAccum hash).isNone then
        Function.update signal.regionAccum hash (some {})
      else signal.regionAccum
    regionAccumIt := hash }

/-- A call on the accumulator that the iterator points to. -/
def onRegion (signal : SumSignal) (call : SumAccumulator → SumAccumulator) : SumSignal :=
  { signal with
    regionAccum := Function.update signal.regionAccum signal.regionAccumIt
      ((signal.regionAccum signal.regionAccumIt).map call) }

/-- `sample_aggregator_update_epoch`. -/
def updateEpoch (signal : SumSignal) (epochCount : ℤ) : SumSignal :=
  if epochCount ≠ signal.epochCountLast then
    let accum := if signal.epochCountLast ≠ 0 then signal.epochAccum.exit else signal.epochAccum
    { signal with epochAccum := accum.enter, epochCountLast := epochCount }
  else signal

/-- `sample_aggregator_update_hash_exit`. -/
def updateHashExit (signal : SumSignal) (hash : ℕ) : SumSignal :=
  if signal.regionHashLast ≠ hash then
    if signal.regionHashLast ≠ regionHashUnmarked then signal.onRegion .exit else signal
  else signal

/-- `sample_aggregator_update_hash_enter`. -/
def updateHashEnter (signal : SumSignal) (hash : ℕ) : SumSignal :=
  if signal.regionHashLast ≠ hash then
    if hash ≠ regionHashUnmarked then signal.onRegion .enter else signal
  else signal

/-- `sample_aggregator_update_period`. -/
def updatePeriod (signal : SumSignal) (period : ℤ) : SumSignal :=
  let accum := if period ≠ 0 then signal.periodAccum.exit else signal.periodAccum
  { signal with periodAccum := accum.enter }

/-- The first update only remembers the samples. -/
def firstUpdate (signal : SumSignal) (sample : Sample) (hash : ℕ) (epochCount : ℤ) : SumSignal :=
  { signal with
    sampleLast := sample
    regionHashLast := hash
    epochCountLast := epochCount }.emplaceHash hash

/-- The change since the last update is added to the totals. -/
def addDelta (signal : SumSignal) (delta : ℚ) : SumSignal :=
  { signal with
    appAccum := signal.appAccum.update (some delta)
    epochAccum :=
      if signal.epochCountLast ≠ 0 then signal.epochAccum.update (some delta)
      else signal.epochAccum
    periodAccum := signal.periodAccum.update (some delta) }.onRegion (·.update (some delta))

/-- What an update after the first one does with a signal. -/
def advance (signal : SumSignal) (period periodLast : ℤ) (sample : Sample) (hash : ℕ)
    (epochCount : ℤ) : SumSignal :=
  match sample with
  | none => signal
  | some x =>
    let delta := match signal.sampleLast with
      | none => 0
      | some y => x - y
    let signal := (signal.addDelta delta).updateEpoch epochCount
    let signal := signal.updateHashExit hash
    let signal := if signal.regionHashLast ≠ hash then signal.emplaceHash hash else signal
    let signal := signal.updateHashEnter hash
    let signal := if period ≠ periodLast then signal.updatePeriod period else signal
    { signal with regionHashLast := hash, sampleLast := some x }

end SumSignal

/-! ### The aggregator -/

/-- The members of `SampleAggregatorImp` for the signals that are summed. -/
structure SampleAggregator where
  timeIdx : ℤ
  isUpdated : Bool := false
  sumSignal : ℤ → Option SumSignal := fun _ => none
  periodDuration : ℚ := 0
  periodLast : ℤ := 0

namespace SampleAggregator

open Prog

/-- `push_signal_total`, with the indices that the platform gives the signal, the hash of its region
and its number of epochs. -/
def pushSignalTotal (result regionHashIdx epochCountIdx : ℤ) :
    EStateM Exception SampleAggregator ℤ := do
  let s ← get
  if s.isUpdated then
    throw ⟨"SampleAggregatorImp::push_signal_total(): called after update()", [], .invalid⟩
  else
    if (s.sumSignal result).isNone then
      set { s with
        sumSignal := Function.update s.sumSignal result (some { regionHashIdx, epochCountIdx }) }
    pure result

/-- `period_duration`. -/
def setPeriodDuration (duration : ℚ) : EStateM Exception SampleAggregator Unit := do
  let s ← get
  if s.isUpdated then
    throw ⟨"SampleAggregatorImp::period_duration(): called after update()", [], .invalid⟩
  else set { s with periodDuration := duration }

/-- `get_period`, with the samples of the last batch. -/
def getPeriod (s : SampleAggregator) (samples : ℤ → Sample) : ℤ :=
  if s.periodDuration ≠ 0 then
    Sample.toInt ((samples s.timeIdx).map fun time => time / s.periodDuration)
  else 0

def updateTotal (s : SampleAggregator) (samples : ℤ → Sample) : SampleAggregator :=
  let period := s.getPeriod samples
  { s with
    sumSignal := fun idx => (s.sumSignal idx).map fun signal =>
      let sample := samples idx
      let hash := sampleToHash (samples signal.regionHashIdx)
      let epochCount := Sample.toInt (samples signal.epochCountIdx)
      if s.isUpdated then signal.advance period s.periodLast sample hash epochCount
      else signal.firstUpdate sample hash epochCount }

/-- `update`. -/
def update (s : SampleAggregator) (samples : ℤ → Sample) : SampleAggregator :=
  { s.updateTotal samples with periodLast := s.getPeriod samples, isUpdated := true }

/-- The signal at an index, which must have been pushed. -/
def findSignal (s : SampleAggregator) (function : String) (signalIdx : ℤ) :
    Except Exception SumSignal :=
  match s.sumSignal signalIdx with
  | some signal => .ok signal
  | none => .error ⟨"SampleAggregator::" ++ function ++ "(): Invalid signal index: signal index " ++
      "not pushed with push_signal_total() or push_signal_average()", [], .invalid⟩

def sampleApplication (s : SampleAggregator) (signalIdx : ℤ) : Except Exception Sample :=
  if s.isUpdated then
    (s.findSignal "sample_application" signalIdx).map fun signal => some signal.appAccum.total
  else .ok none

def sampleEpoch (s : SampleAggregator) (signalIdx : ℤ) : Except Exception Sample :=
  if s.isUpdated then
    (s.findSignal "sample_epoch" signalIdx).map fun signal => some signal.epochAccum.total
  else .ok none

def sampleEpochLast (s : SampleAggregator) (signalIdx : ℤ) : Except Exception Sample :=
  if s.isUpdated then
    (s.findSignal "sample_epoch" signalIdx).map fun signal =>
      some signal.epochAccum.intervalTotal
  else .ok none

/-- `sample_region_helper`: a region that has not been observed has not changed the signal. -/
def sampleRegionHelper (s : SampleAggregator) (signalIdx : ℤ) (regionHash : ℕ) (isLast : Bool) :
    Except Exception Sample :=
  (s.findSignal "sample_region" signalIdx).map fun signal =>
    match signal.regionAccum regionHash with
    | none => some 0
    | some accum => some (if isLast then accum.intervalTotal else accum.total)

def sampleRegion (s : SampleAggregator) (signalIdx : ℤ) (regionHash : ℕ) :
    Except Exception Sample :=
  if ¬ s.isUpdated then .ok none
  else if regionHash = regionHashEpoch then s.sampleEpoch signalIdx
  else if regionHash = regionHashApp then s.sampleApplication signalIdx
  else s.sampleRegionHelper signalIdx regionHash false

def sampleRegionLast (s : SampleAggregator) (signalIdx : ℤ) (regionHash : ℕ) :
    Except Exception Sample :=
  if ¬ s.isUpdated then .ok none
  else if regionHash = regionHashEpoch then s.sampleEpochLast signalIdx
  else s.sampleRegionHelper signalIdx regionHash true

def samplePeriodLast (s : SampleAggregator) (signalIdx : ℤ) : Except Exception Sample :=
  if ¬ s.isUpdated ∨ s.periodDuration = 0 then .ok none
  else (s.findSignal "sample_period" signalIdx).map fun signal =>
    some signal.periodAccum.intervalTotal

end SampleAggregator

end Geopm
