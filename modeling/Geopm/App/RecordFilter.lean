import Geopm.App.PeriodicityDetector

/-!
# Record filters

A filter drops the epoch records of the application and marks epochs of its own.

* `ProxyEpochRecordFilter` : an epoch for every so many entries of one region;
* `EditDistEpochRecordFilter` : an epoch for every period of the region entries;
* `RecordFilter.make` : the filter of a configuration, `RecordFilter.filterAll` : the filtered
  stream.

The counters are not bounded.  The hysteresis factors are rationals.
-/

namespace Geopm

open Prog

/-- The record is an epoch record. -/
def Record.isEpoch (r : Record) : Bool := r.event == .epochCount

/-- The epoch record that follows the entry record of a filter. -/
def Record.epochAfter (r : Record) (n : ℕ) : Record :=
  { r with event := .epochCount, signal := n }

/-! ### A proxy region -/

/-- The members of `ProxyEpochRecordFilter`. -/
structure ProxyEpochRecordFilter where
  proxyHash : ℕ
  numPerEpoch : ℕ
  count : ℤ
deriving DecidableEq, Repr

namespace ProxyEpochRecordFilter

/-- The constructor. -/
def make (regionHash : ℕ) (callsPerEpoch startupCount : ℤ) :
    Except Exception ProxyEpochRecordFilter :=
  if uint32Max < regionHash then
    .error ⟨"ProxyEpochRecordFilter(): Parameter region_hash is out of range", [], .invalid⟩
  else if callsPerEpoch ≤ 0 then
    .error ⟨"ProxyEpochRecordFilter(): Parameter calls_per_epoch must be greater than zero", [],
      .invalid⟩
  else if startupCount < 0 then
    .error ⟨"ProxyEpochRecordFilter(): Parameter startup_count must be greater than or equal " ++
      "to zero", [], .invalid⟩
  else
    .ok { proxyHash := regionHash
          numPerEpoch := callsPerEpoch.toNat
          count := -startupCount }

/-- `filter`. -/
def filter (record : Record) : EStateM Exception ProxyEpochRecordFilter (List Record) := do
  let f ← get
  if record.event = .epochCount then pure []
  else if record.event = .regionEntry ∧ record.signal = f.proxyHash then
    set { f with count := f.count + 1 }
    if 0 ≤ f.count ∧ f.count % f.numPerEpoch = 0 then
      pure [record, record.epochAfter (1 + f.count / f.numPerEpoch).toNat]
    else pure [record]
  else pure [record]

end ProxyEpochRecordFilter

/-! ### A period of the region entries -/

/-- The members of `EditDistEpochRecordFilter`. -/
structure EditDistEpochRecordFilter where
  edpd : EditDistPeriodicityDetector
  minHysteresisBasePeriod : ℤ
  minDetectablePeriod : ℤ
  stablePeriodHysteresis : ℚ
  unstablePeriodHysteresis : ℚ
  lastPeriod : ℤ := -1
  periodStable : ℤ := 0
  periodUnstable : ℤ := 0
  isPeriodDetected : Bool := false
  lastEpoch : ℤ := -1
  epochCount : ℕ := 0
deriving Repr

namespace EditDistEpochRecordFilter

/-- The cast of a `double` to an `int` drops the fraction. -/
def truncate (q : ℚ) : ℤ := q.num.tdiv q.den

/-- The constructor. -/
def make (historyBufferSize minHysteresisBasePeriod minDetectablePeriod : ℤ)
    (stablePeriodHysteresis unstablePeriodHysteresis : ℚ) :
    Except Exception EditDistEpochRecordFilter := do
  let edpd ← EditDistPeriodicityDetector.make historyBufferSize
  return { edpd, minHysteresisBasePeriod, minDetectablePeriod, stablePeriodHysteresis,
           unstablePeriodHysteresis }

/-- What `epoch_detected` does to the stability of the last period while none is detected. -/
def trackPeriod (f : EditDistEpochRecordFilter) : EditDistEpochRecordFilter :=
  if f.edpd.period ≤ f.edpd.score ∨ f.edpd.period < f.minDetectablePeriod then
    { f with lastPeriod := -1, periodStable := 0 }
  else if f.edpd.period = f.lastPeriod then
    { f with periodStable := f.periodStable + 1 }
  else
    { f with lastPeriod := f.edpd.period, periodStable := 0 }

/-- The condition of `epoch_detected` for a stable period. -/
def IsStable (f : EditDistEpochRecordFilter) : Prop :=
  (f.edpd.period ≤ f.minHysteresisBasePeriod ∧
      (f.periodStable : ℚ) = f.stablePeriodHysteresis * f.minHysteresisBasePeriod) ∨
    (f.minHysteresisBasePeriod < f.edpd.period ∧
      truncate (f.stablePeriodHysteresis * f.edpd.period) ≤ f.periodStable)

instance (f : EditDistEpochRecordFilter) : Decidable f.IsStable := by
  unfold IsStable
  infer_instance

def epochDetected : EStateM Exception EditDistEpochRecordFilter Bool := do
  let f ← get
  if ¬ f.isPeriodDetected then
    let f := f.trackPeriod
    if f.IsStable then
      set { f with isPeriodDetected := true, lastEpoch := f.edpd.recordCount, periodStable := 0 }
      pure true
    else
      set f
      pure false
  else
    let f :=
      if f.edpd.period = f.lastPeriod then { f with periodUnstable := 0 }
      else { f with periodUnstable := f.periodUnstable + 1 }
    if truncate (f.unstablePeriodHysteresis * f.lastPeriod) ≤ f.periodUnstable then
      set { f with isPeriodDetected := false, periodUnstable := 0 }
      pure false
    else if f.lastPeriod ≤ f.edpd.period ∧
        f.edpd.period ≤ (f.edpd.recordCount : ℤ) - f.lastEpoch then
      set { f with lastEpoch := f.edpd.recordCount }
      pure true
    else
      set f
      pure false

/-- `filter`. -/
def filter (record : Record) : EStateM Exception EditDistEpochRecordFilter (List Record) := do
  if record.event = .epochCount then pure []
  else if record.event = .regionEntry then
    zoom edpd (fun d f => { f with edpd := d }) (EditDistPeriodicityDetector.update record)
    let detected ← epochDetected
    if detected then
      modify fun f => { f with epochCount := f.epochCount + 1 }
      let f ← get
      pure [record, record.epochAfter f.epochCount]
    else pure [record]
  else pure [record]

end EditDistEpochRecordFilter

/-! ### Any filter -/

/-- The parameters of a filter's name. -/
inductive FilterConfig where
  | proxyEpoch (regionHash : ℕ) (callsPerEpoch startupCount : ℤ)
  | editDistance (historyBufferSize minHysteresisBasePeriod minDetectablePeriod : ℤ)
      (stablePeriodHysteresis unstablePeriodHysteresis : ℚ)
deriving DecidableEq, Repr

/-- The two classes of filters. -/
inductive RecordFilter where
  | proxyEpoch (f : ProxyEpochRecordFilter)
  | editDistance (f : EditDistEpochRecordFilter)
deriving Repr

namespace RecordFilter

/-- `make_unique`, once the name is parsed. -/
def make : FilterConfig → Except Exception RecordFilter
  | .proxyEpoch regionHash callsPerEpoch startupCount =>
    (ProxyEpochRecordFilter.make regionHash callsPerEpoch startupCount).map .proxyEpoch
  | .editDistance historyBufferSize minBasePeriod minPeriod stable unstable =>
    (EditDistEpochRecordFilter.make historyBufferSize minBasePeriod minPeriod stable unstable).map
      .editDistance

/-- `filter`: the records that replace the record. -/
def filter (record : Record) : EStateM Exception RecordFilter (List Record) := fun s =>
  match s with
  | .proxyEpoch f =>
    zoom (fun _ => f) (fun f _ => .proxyEpoch f) (ProxyEpochRecordFilter.filter record) s
  | .editDistance f =>
    zoom (fun _ => f) (fun f _ => .editDistance f) (EditDistEpochRecordFilter.filter record) s

/-- The filtered stream. -/
def filterAll : List Record → EStateM Exception RecordFilter (List Record)
  | [] => pure []
  | r :: rs => do
    let out ← filter r
    let rest ← filterAll rs
    pure (out ++ rest)

end RecordFilter

end Geopm
