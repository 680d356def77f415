import Geopm.Lib.Fallible
import Geopm.Lib.LastOf
import Geopm.Lib.Prog
import Geopm.Lib.Rounding

/-!
# Grids of control settings

`ControlGrid` makes a grid of its `--sweep` specifications: one dimension for each index of the
domain of a specification, with the settings from a minimum to a maximum.  A coordinate picks one
setting of each dimension.

* `Platform` : what `pio` and `topo` say; `SweepDim` : a parsed specification;
* `ControlGrid.make`, `getDimensionGrid`, `getConfig` : the methods, with exact numbers;
* `Means` : each dimension takes its range from its specification alone, and has all its settings;
  `ConfigRight` : a coordinate is checked;
* `Separate`, `Divides`, `Wraps` : when this is so;
* `make_spec` : the dimensions and the overrides that are made of the specifications;
* `grid_iff` : a grid is right exactly when its specifications are separate and divide their ranges.
-/

namespace Geopm.Opt

open Rounding
open List hiding get
open Except (exists_of_bind_eq_ok)

/-! ### Controls and their ranges -/

/-- What is raised; other exceptions do not occur. -/
inductive GridError where
  | runtimeError (what : String)
  | valueError (what : String)
  | indexError
deriving DecidableEq

/-- The keys of `_CLI_FLAG_TO_CONTROL`. -/
inductive Control where
  | cpuFrequency
  | cpuUncoreFrequency
  | cpuPower
  | gpuFrequency
  | gpuPower
  | boardPower
  | prefetchDisable
deriving DecidableEq

/-- The text of a key. -/
def Control.key : Control → String
  | cpuFrequency => "cpu_frequency"
  | cpuUncoreFrequency => "cpu_uncore_frequency"
  | cpuPower => "cpu_power"
  | gpuFrequency => "gpu_frequency"
  | gpuPower => "gpu_power"
  | boardPower => "board_power"
  | prefetchDisable => "prefetch_disable"

/-- The bounds of a range, by which the entries of `_CLI_FLAG_TO_CONTROL` are indexed from one. -/
inductive Bound where
  | minimum
  | maximum
  | step
deriving DecidableEq

/-- A number, or the name of a signal. -/
inductive Candidate where
  | number (x : ℚ)
  | signal (name : String)

/-- The identifier of a range value: one candidate, or a tuple of them. -/
inductive RangeKey where
  | one (candidate : Candidate)
  | tuple (candidates : List Candidate)

/-- `_DEFAULT_POWER_MAX`. -/
def defaultPowerMax : ℚ := 6000

/-- `_DEFAULT_POWER_MIN`. -/
def defaultPowerMin : ℚ := 200

/-- `_DEFAULT_POWER_STEP`. -/
def defaultPowerStep : ℚ := 1

/-- `_PREFETCHER_CONTROL_SEQUENCE`. -/
def prefetcherControlSequence : List String :=
  ["MSR::MISC_FEATURE_CONTROL:DCU_HW_PREFETCHER_DISABLE",
    "MSR::MISC_FEATURE_CONTROL:L2_HW_PREFETCHER_DISABLE",
    "MSR::MISC_FEATURE_CONTROL:DCU_IP_PREFETCHER_DISABLE",
    "MSR::MISC_FEATURE_CONTROL:L2_ADJACENT_PREFETCHER_DISABLE"]

/-- `_MAX_PREFETCH_DISABLE_LEVEL`. -/
def maxPrefetchDisableLevel : ℕ := prefetcherControlSequence.length

/-- The names of the controls in `_CLI_FLAG_TO_CONTROL`. -/
def Control.signalKey : Control → String
  | cpuFrequency => "CPU_FREQUENCY_MAX_CONTROL"
  | cpuUncoreFrequency => "CPU_UNCORE_FREQUENCY_MAX_CONTROL"
  | cpuPower => "POWERCAP::CPU_POWER_LIMIT"
  | gpuFrequency => "GPU_CORE_FREQUENCY_MAX_CONTROL"
  | gpuPower => "GPU_POWER_LIMIT_CONTROL"
  | boardPower => "BOARD_POWER_LIMIT_CONTROL"
  | prefetchDisable => "prefetch_disable"

/-- The ranges in `_CLI_FLAG_TO_CONTROL`. -/
def Control.rangeKey : Control → Bound → RangeKey
  | cpuFrequency, .minimum => .one (.signal "CPU_FREQUENCY_MIN_AVAIL")
  | cpuFrequency, .maximum => .one (.signal "CPU_FREQUENCY_STICKER")
  | cpuFrequency, .step => .one (.signal "CPU_FREQUENCY_STEP")
  | cpuUncoreFrequency, .minimum => .one (.signal "CPU_FREQUENCY_MIN_AVAIL")
  | cpuUncoreFrequency, .maximum => .one (.signal "CPU_UNCORE_FREQUENCY_MAX_CONTROL")
  | cpuUncoreFrequency, .step => .one (.signal "CPU_FREQUENCY_STEP")
  | cpuPower, .minimum => .one (.signal "CPU_POWER_MIN_AVAIL")
  | cpuPower, .maximum => .one (.signal "CPU_POWER_LIMIT_DEFAULT")
  | cpuPower, .step => .one (.number defaultPowerStep)
  | gpuFrequency, .minimum => .one (.signal "GPU_CORE_FREQUENCY_MIN_AVAIL")
  | gpuFrequency, .maximum => .one (.signal "GPU_CORE_FREQUENCY_MAX_AVAIL")
  | gpuFrequency, .step => .one (.signal "GPU_CORE_FREQUENCY_STEP")
  | gpuPower, .minimum =>
    .tuple [.signal "LEVELZERO::GPU_POWER_LIMIT_MIN_AVAIL", .number defaultPowerMin]
  | gpuPower, .maximum =>
    .tuple [.signal "LEVELZERO::GPU_POWER_LIMIT_DEFAULT", .signal "GPU_POWER_LIMIT_CONTROL"]
  | gpuPower, .step => .one (.number defaultPowerStep)
  | boardPower, .minimum => .one (.number defaultPowerMin)
  | boardPower, .maximum => .one (.number defaultPowerMax)
  | boardPower, .step => .one (.number defaultPowerStep)
  | prefetchDisable, .minimum => .one (.number 0)
  | prefetchDisable, .maximum => .one (.number maxPrefetchDisableLevel)
  | prefetchDisable, .step => .one (.number 1)

/-- The control that decides the native domain. -/
def Control.nativeKey : Control → String
  | prefetchDisable => prefetcherControlSequence.headD ""
  | control => control.signalKey

/-- What `pio` and `topo` say of the platform; their errors are the texts of a `RuntimeError`.  A
domain stands for its name, and the board for the domain 0. -/
structure Platform where
  domainName : String → Except String String
  numDomain : String → Except String ℕ
  controlDomainType : String → Except String String
  domainNested : String → String → Except String Unit
  readSignal : String → String → Except String ℚ
  controlNames : List String

/-- The overrides of a specification. -/
structure Overrides where
  minimum : Option ℚ := none
  maximum : Option ℚ := none
  step : Option ℚ := none
deriving DecidableEq

namespace Overrides

/-- The override of a bound. -/
def get (o : Overrides) : Bound → Option ℚ
  | .minimum => o.minimum
  | .maximum => o.maximum
  | .step => o.step

/-- `dict.update`. -/
def update (o o' : Overrides) : Overrides :=
  ⟨o'.minimum.or o.minimum, o'.maximum.or o.maximum, o'.step.or o.step⟩

end Overrides

/-- What `parse_sweep_dim` returns for a specification. -/
structure SweepDim where
  control : Control
  domain : Option String
  overrides : Overrides

/-- A dimension. -/
structure Dimension where
  controlName : Control
  domainType : String
  domainIdx : ℕ
deriving DecidableEq

/-- A row of `grid_data`. -/
structure GridRow where
  control : String
  domain : String
  domainIdx : ℕ
  settings : List ℚ
deriving DecidableEq

/-- An element of a configuration. -/
structure Command where
  control : String
  domain : String
  domainIdx : ℕ
  setting : ℚ
deriving DecidableEq

/-- The members of `ControlGrid`. -/
structure ControlGrid where
  dimensions : List Dimension
  rangeOverrides : Control → Overrides
  gridData : List GridRow

section Platform

variable (p : Platform)

/-- A call of `pio` or of `topo`. -/
def Platform.call {α : Type} : Except String α → Except GridError α
  | .ok a => .ok a
  | .error what => .error (.runtimeError what)

def nativeDomain (control : Control) : Except GridError String := do
  Platform.call (p.domainName (← Platform.call (p.controlDomainType control.nativeKey)))

/-- `_resolve_range_value` of a candidate. -/
def resolveCandidate (domain : String) : Candidate → Except String ℚ
  | .number x => .ok x
  | .signal name =>
    match p.readSignal name domain with
    | .ok v => .ok v
    | .error _ => p.readSignal name "board"

/-- `_resolve_range_value` of a tuple, after the last error. -/
def resolveTuple (domain : String) : Option String → List Candidate → Except GridError ℚ
  | none, [] => .error (.valueError "No valid value found for range tuple")
  | some what, [] => .error (.runtimeError what)
  | _, candidate :: candidates =>
    match resolveCandidate p domain candidate with
    | .ok v => .ok v
    | .error what => resolveTuple domain (some what) candidates

def resolveRangeValue (domain : String) : RangeKey → Except GridError ℚ
  | .one candidate => Platform.call (resolveCandidate p domain candidate)
  | .tuple candidates => resolveTuple p domain none candidates

def getRange (rangeOverrides : Control → Overrides) (control : Control) (domain : String)
    (index : Bound) : Except GridError ℚ :=
  match (rangeOverrides control).get index with
  | some v => .ok v
  | none => resolveRangeValue p domain (control.rangeKey index)

/-- `add_dimension`: the dimensions that it appends. -/
def addDimension (control : Control) (domain : String) : Except GridError (List Dimension) := do
  let domain ← Platform.call (p.domainName domain)
  let numDomain ← Platform.call (p.numDomain domain)
  let native ← Platform.call (p.controlDomainType control.nativeKey)
  match p.domainNested native domain with
  | .error _ =>
    let controlName := control.key
    .error (.valueError s!"Control {controlName} cannot be applied to domain {domain}.")
  | .ok _ => .ok ((List.range numDomain).map (⟨control, domain, ·⟩))

/-- The domain that a bound is detected in: `get_step` asks for the board. -/
def Bound.domain (domain : String) : Bound → String
  | .step => "board"
  | _ => domain

/-- `get_minimum`, `get_maximum` and `get_step`. -/
def getBound (rangeOverrides : Control → Overrides) (d : Dimension) (index : Bound) :
    Except GridError ℚ :=
  getRange p rangeOverrides d.controlName (index.domain d.domainType) index

/-- The relative tolerance. -/
def relTol : ℚ := 1 / 10 ^ 9

/-- The absolute tolerance. -/
def absTol : ℚ := 1 / 10 ^ 12

def getDimensionGrid (rangeOverrides : Control → Overrides) (d : Dimension) :
    Except GridError (List ℚ) := do
  let control := d.controlName.key
  let minimum ← getBound p rangeOverrides d .minimum
  let maximum ← getBound p rangeOverrides d .maximum
  let step ← getBound p rangeOverrides d .step
  if step ≤ 0 then .error (.valueError s!"Grid for {control} has a non-positive step size.")
  else if maximum < minimum then
    .error (.valueError s!"Grid for {control} has maximum less than minimum.")
  else
    let span := maximum - minimum
    if isClose span 0 relTol absTol then .ok [minimum]
    else
      let stepsFloat := span / step
      let stepsInt := roundEven stepsFloat
      if !isClose stepsFloat stepsInt relTol absTol then
        .error (.valueError s!"Grid for {control} is not evenly divisible by step size.")
      else if stepsInt + 1 ≤ 0 then .error (.valueError s!"Grid for {control} has no steps.")
      else .ok ((List.range (stepsInt + 1).toNat).map fun idx : ℕ => minimum + idx * step)

/-- An element of the list of `_get_grid_data`. -/
def gridRow (rangeOverrides : Control → Overrides) (d : Dimension) : Except GridError GridRow :=
  (getDimensionGrid p rangeOverrides d).map
    (⟨d.controlName.signalKey, d.domainType, d.domainIdx, ·⟩)

/-- The domain of a specification, or else the native one. -/
def sweepDomain (spec : SweepDim) : Except GridError String :=
  match spec.domain with
  | some domain => .ok domain
  | none => nativeDomain p spec.control

/-- The dimensions of a specification. -/
def sweepDimensions (spec : SweepDim) : Except GridError (List Dimension) := do
  let domain ← sweepDomain p spec
  addDimension p spec.control domain

/-- A round of the loop of `ControlGrid.__init__`. -/
def addSweep (members : List Dimension × (Control → Overrides)) (spec : SweepDim) :
    Except GridError (List Dimension × (Control → Overrides)) :=
  (sweepDimensions p spec).map fun ds => (members.1 ++ ds,
    Function.update members.2 spec.control ((members.2 spec.control).update spec.overrides))

/-- `ControlGrid.__init__`. -/
def ControlGrid.make (specs : List SweepDim) : Except GridError ControlGrid := do
  let (dimensions, rangeOverrides) ← specs.foldlM (addSweep p) ([], fun _ => {})
  let gridData ← dimensions.mapM (gridRow p rangeOverrides)
  .ok ⟨dimensions, rangeOverrides, gridData⟩

/-! ### Configurations -/

def prefetchSettings (level : ℤ) : List (String × ℚ) :=
  prefetcherControlSequence.mapIdx fun idx controlName =>
    (controlName, if (idx : ℤ) < level then 1 else 0)

/-- The elements of a configuration for a row and its setting. -/
def rowCommands (dim : GridRow) (value : ℚ) : List Command :=
  if dim.control = "prefetch_disable" then
    let level := max 0 (min (maxPrefetchDisableLevel : ℤ) (roundEven value))
    (prefetchSettings level).map fun s => ⟨s.1, dim.domain, dim.domainIdx, s.2⟩
  else
    let minControl := dim.control.replace "_MAX_" "_MIN_"
    ⟨dim.control, dim.domain, dim.domainIdx, value⟩ ::
      if minControl ≠ dim.control ∧ minControl ∈ p.controlNames ∧
          minControl ≠ "CPU_FREQUENCY_MIN_CONTROL" then
        [⟨minControl, dim.domain, dim.domainIdx, value⟩]
      else []

/-- An element of a list, where a negative index counts from the end. -/
def pyIndex {α : Type} (xs : List α) (i : ℤ) : Except GridError α :=
  let i := if i < 0 then i + xs.length else i
  if i < 0 then .error .indexError
  else match xs[i.toNat]? with
    | some x => .ok x
    | none => .error .indexError

/-- The command for the governor when there is a frequency of the CPU. -/
def governorCommands (grid : ControlGrid) : List Command :=
  if .cpuFrequency ∈ grid.dimensions.map (·.controlName) then
    [⟨"CPU_FREQUENCY_GOVERNOR_CONTROL", "board", 0, 0⟩]
  else []

def getConfig (grid : ControlGrid) (coordinate : List ℤ) : Except GridError (List Command) := do
  if grid.dimensions.length = 0 then
    .error (.runtimeError "Called get_config(), but ControlGrid has not been configured")
  else if coordinate.length ≠ grid.dimensions.length then
    let size := grid.dimensions.length
    .error (.valueError s!"Input coordinate not correctly sized, must be length {size}")
  else
    let result ← (grid.gridData.zip coordinate).mapM fun x =>
      (pyIndex x.1.settings x.2).map (rowCommands p x.1)
    .ok (governorCommands grid ++ result.flatten)

/-! ### What a grid means -/

/-- A bound that a specification alone gives a dimension: its override, or what is detected. -/
def SweepDim.bound (spec : SweepDim) (d : Dimension) (index : Bound) : Except GridError ℚ :=
  getBound p (fun _ => spec.overrides) d index

/-- The dimensions, each with the specification that produces it. -/
def produced (specs : List SweepDim) : Except GridError (List (SweepDim × Dimension)) :=
  (specs.mapM fun spec => (sweepDimensions p spec).map (·.map (spec, ·))).map List.flatten

/-- The settings are all of `minimum`, `minimum + step`, ..., `maximum`. -/
structure IsRange (minimum maximum step : ℚ) (settings : List ℚ) : Prop where
  eq_map : settings = (List.range settings.length).map fun idx : ℕ => minimum + idx * step
  last : settings.getLast? = some maximum
  within : ∀ x ∈ settings, minimum ≤ x ∧ x ≤ maximum
  nodup : settings.Nodup
  length : (settings.length : ℚ) = (maximum - minimum) / step + 1

/-- A row has the range that the specification of its dimension alone gives it. -/
structure RowRight (rangeOverrides : Control → Overrides) (x : SweepDim × Dimension)
    (row : GridRow) : Prop where
  control : row.control = x.2.controlName.signalKey
  domain : row.domain = x.2.domainType
  domainIdx : row.domainIdx = x.2.domainIdx
  bound : ∀ index, getBound p rangeOverrides x.2 index = x.1.bound p x.2 index
  settings : ∃ minimum maximum step, x.1.bound p x.2 .minimum = .ok minimum ∧
    x.1.bound p x.2 .maximum = .ok maximum ∧ x.1.bound p x.2 .step = .ok step ∧
    IsRange minimum maximum step row.settings

/-- Each dimension that a specification produces has the range of that specification alone. -/
def Means (specs : List SweepDim) (grid : ControlGrid) : Prop :=
  ∃ xs, produced p specs = .ok xs ∧ xs.map Prod.snd = grid.dimensions ∧
    List.Forall₂ (RowRight p grid.rangeOverrides) xs grid.gridData

/-- The last override of a bound among the specifications of a control. -/
def lastOverride (specs : List SweepDim) (control : Control) (index : Bound) : Option ℚ :=
  lastOf (fun spec => if spec.control = control then spec.overrides.get index else none) specs

/-- The last overrides among the specifications of the control are the bounds of this one. -/
def Separate (specs : List SweepDim) (x : SweepDim × Dimension) : Prop :=
  ∀ index v, lastOverride specs x.1.control index = some v → x.1.bound p x.2 index = .ok v

/-- The range of the specification is a single setting, or it is longer than the tolerance and a
multiple of the step. -/
def Divides (x : SweepDim × Dimension) : Prop :=
  ∀ minimum maximum step, x.1.bound p x.2 .minimum = .ok minimum →
    x.1.bound p x.2 .maximum = .ok maximum → x.1.bound p x.2 .step = .ok step →
    maximum = minimum ∨ absTol < maximum - minimum ∧ ∃ k : ℤ, maximum - minimum = k * step

/-- The indices of a coordinate are those of settings. -/
def InRange (grid : ControlGrid) (coordinate : List ℤ) : Prop :=
  List.Forall₂ (fun row i => 0 ≤ i ∧ i < row.settings.length) grid.gridData coordinate

/-- The configuration of settings, one for each row. -/
def configOf (grid : ControlGrid) (values : List ℚ) : List Command :=
  governorCommands grid ++ (List.zipWith (rowCommands p) grid.gridData values).flatten

/-- A coordinate gives the settings at its indices if there are such settings, and else it is
refused. -/
def ConfigRight (grid : ControlGrid) (coordinate : List ℤ) : Prop :=
  (InRange grid coordinate → ∃ values,
    List.Forall₂ (fun x v => x.1.settings[x.2.toNat]? = some v) (grid.gridData.zip coordinate)
      values ∧ getConfig p grid coordinate = .ok (configOf p grid values)) ∧
  (¬ InRange grid coordinate → ∃ e, getConfig p grid coordinate = .error e)

/-- A coordinate has a negative index, and all its indices are in a list from either end. -/
def Wraps (grid : ControlGrid) (coordinate : List ℤ) : Prop :=
  List.Forall₂ (fun row i => -(row.settings.length : ℤ) ≤ i ∧ i < row.settings.length)
    grid.gridData coordinate ∧ ∃ i ∈ coordinate, i < 0

end Platform

/-! ### Ranges -/

section Ranges

variable {minimum maximum step : ℚ}

/-- Steps from the minimum are a range exactly when they end at the maximum. -/
theorem isRange_iff (hstep : 0 < step) (n : ℕ) :
    IsRange minimum maximum step ((List.range (n + 1)).map fun idx : ℕ => minimum + idx * step) ↔
      maximum - minimum = n * step := by
  constructor
  · intro h
    have hlength := h.length
    rw [length_map, length_range, Nat.cast_succ, add_left_inj, eq_div_iff hstep.ne'] at hlength
    exact hlength.symm
  · intro h
    have hmax : maximum = minimum + n * step := by linarith
    have hinjective : Function.Injective fun idx : ℕ => minimum + idx * step := by
      intro i j hij
      have hcast : (i : ℚ) = j := mul_right_cancel₀ hstep.ne' (add_left_cancel hij)
      exact_mod_cast hcast
    refine ⟨by simp, ?_, ?_, (nodup_map_iff hinjective).mpr nodup_range, ?_⟩
    · rw [range_succ, map_append, hmax]
      simp
    · intro x hx
      obtain ⟨i, hi, rfl⟩ := mem_map.mp hx
      have hi : (i : ℚ) ≤ n := by exact_mod_cast Nat.le_of_lt_succ (mem_range.mp hi)
      have hnonneg : (0 : ℚ) ≤ i := Nat.cast_nonneg i
      rw [hmax]
      constructor <;> nlinarith
    · rw [h, mul_div_cancel_right₀ _ hstep.ne']
      simp

/-- The settings of a range that the checks accept. -/
def steps (minimum maximum step : ℚ) : List ℚ :=
  if maximum - minimum ≤ absTol then [minimum]
  else (List.range (roundEven ((maximum - minimum) / step) + 1).toNat).map fun idx : ℕ =>
    minimum + idx * step

/-- The settings are a range exactly when the step divides it, or it is a single setting. -/
theorem isRange_steps_iff (hstep : 0 < step) :
    IsRange minimum maximum step (steps minimum maximum step) ↔ maximum = minimum ∨
      absTol < maximum - minimum ∧ ∃ k : ℤ, maximum - minimum = k * step := by
  have htol : (0 : ℚ) < absTol := by norm_num [absTol]
  rw [steps]
  rcases le_or_gt (maximum - minimum) absTol with hspan | hspan
  · have hsingle : IsRange minimum maximum step _ ↔ _ := isRange_iff hstep 0
    simp only [range_succ, range_zero, nil_append, map_cons, map_nil,
      Nat.cast_zero, zero_mul, add_zero, sub_eq_zero] at hsingle
    rw [if_pos hspan, hsingle]
    simp only [hspan.not_gt, false_and, or_false]
  · have hnonneg : 0 ≤ roundEven ((maximum - minimum) / step) :=
      roundEven_nonneg (div_nonneg (by linarith) hstep.le)
    obtain ⟨n, hn⟩ := Int.eq_ofNat_of_zero_le hnonneg
    have htoNat : (roundEven ((maximum - minimum) / step) + 1).toNat = n + 1 := by omega
    have hne : maximum ≠ minimum := fun h => by linarith
    rw [if_neg hspan.not_ge, htoNat, isRange_iff hstep]
    simp only [hne, hspan, false_or, true_and]
    constructor
    · intro h
      exact ⟨n, by exact_mod_cast h⟩
    · rintro ⟨k, hk⟩
      rw [hk, mul_div_cancel_right₀ _ hstep.ne', roundEven_intCast] at hn
      rw [hk, hn]
      simp

end Ranges

section Platform

variable {p : Platform} {rangeOverrides : Control → Overrides} {d : Dimension} {settings : List ℚ}

theorem getDimensionGrid_eq_ok (h : getDimensionGrid p rangeOverrides d = .ok settings) :
    ∃ minimum maximum step, getBound p rangeOverrides d .minimum = .ok minimum ∧
      getBound p rangeOverrides d .maximum = .ok maximum ∧
      getBound p rangeOverrides d .step = .ok step ∧ 0 < step ∧ minimum ≤ maximum ∧
      settings = steps minimum maximum step := by
  obtain ⟨minimum, hminimum, h⟩ := exists_of_bind_eq_ok h
  obtain ⟨maximum, hmaximum, h⟩ := exists_of_bind_eq_ok h
  obtain ⟨step, hstep, h⟩ := exists_of_bind_eq_ok h
  refine ⟨minimum, maximum, step, hminimum, hmaximum, hstep, ?_⟩
  have htol : (0 : ℚ) ≤ absTol := by norm_num [absTol]
  have hrel : relTol < 1 := by norm_num [relTol]
  by_cases hpos : step ≤ 0
  · rw [if_pos hpos] at h
    cases h
  rw [if_neg hpos] at h
  by_cases hlt : maximum < minimum
  · rw [if_pos hlt] at h
    cases h
  rw [if_neg hlt] at h
  have hspan : isClose (maximum - minimum) 0 relTol absTol = true ↔ maximum - minimum ≤ absTol :=
    isClose_zero_iff hrel (by linarith) htol
  refine ⟨not_le.mp hpos, not_lt.mp hlt, ?_⟩
  simp only [hspan] at h
  rw [steps]
  by_cases hzero : maximum - minimum ≤ absTol
  · rw [if_pos hzero] at h
    rw [if_pos hzero, Except.ok.inj h]
  rw [if_neg hzero] at h
  split at h
  · cases h
  split at h
  · cases h
  rw [if_neg hzero, Except.ok.inj h]

theorem isRange_iff_divides {x : SweepDim × Dimension}
    (h : getDimensionGrid p rangeOverrides x.2 = .ok settings)
    (hbound : ∀ index, getBound p rangeOverrides x.2 index = x.1.bound p x.2 index) :
    (∃ minimum maximum step, x.1.bound p x.2 .minimum = .ok minimum ∧
      x.1.bound p x.2 .maximum = .ok maximum ∧ x.1.bound p x.2 .step = .ok step ∧
      IsRange minimum maximum step settings) ↔ Divides p x := by
  obtain ⟨minimum, maximum, step, hminimum, hmaximum, hstep, hpos, -, rfl⟩ :=
    getDimensionGrid_eq_ok h
  rw [hbound] at hminimum hmaximum hstep
  have hdivides : Divides p x ↔ maximum = minimum ∨
      absTol < maximum - minimum ∧ ∃ k : ℤ, maximum - minimum = k * step := by
    refine ⟨fun h => h _ _ _ hminimum hmaximum hstep, fun h _ _ _ hmin hmax hst => ?_⟩
    obtain rfl := Except.ok.inj (hmin.symm.trans hminimum)
    obtain rfl := Except.ok.inj (hmax.symm.trans hmaximum)
    obtain rfl := Except.ok.inj (hst.symm.trans hstep)
    exact h
  simp only [hdivides, hminimum, hmaximum, hstep, Except.ok.injEq, exists_and_left,
    exists_eq_left']
  exact isRange_steps_iff hpos

/-! ### The dimensions of the specifications -/

theorem get_foldl_update (specs : List SweepDim) (rangeOverrides : Control → Overrides)
    (control : Control) (index : Bound) :
    ((specs.foldl (fun overrides spec => Function.update overrides spec.control
      ((overrides spec.control).update spec.overrides)) rangeOverrides) control).get index =
      (lastOverride specs control index).or ((rangeOverrides control).get index) := by
  induction specs using List.reverseRecOn with
  | nil => rfl
  | append_singleton specs spec ih =>
    rw [List.foldl_append, lastOverride, lastOf_concat]
    rw [lastOverride] at ih
    simp only [foldl_cons, foldl_nil]
    by_cases hcontrol : spec.control = control
    · subst hcontrol
      rw [Function.update_self, if_pos rfl, Option.or_assoc, ← ih]
      cases index <;> rfl
    · rw [Function.update_of_ne (Ne.symm hcontrol), if_neg hcontrol, ih]
      rfl

theorem controlName_of_mem {spec : SweepDim} {ds : List Dimension}
    (h : sweepDimensions p spec = .ok ds) {d : Dimension} (hd : d ∈ ds) :
    d.controlName = spec.control := by
  obtain ⟨domain, -, h⟩ := exists_of_bind_eq_ok h
  obtain ⟨domain, -, h⟩ := exists_of_bind_eq_ok h
  obtain ⟨numDomain, -, h⟩ := exists_of_bind_eq_ok h
  obtain ⟨native, -, h⟩ := exists_of_bind_eq_ok h
  split at h
  · cases h
  · obtain rfl := Except.ok.inj h
    obtain ⟨idx, -, rfl⟩ := mem_map.mp hd
    rfl

theorem foldlM_addSweep {specs : List SweepDim} {members members' : List Dimension × (Control → Overrides)}
    (h : specs.foldlM (addSweep p) members = .ok members') :
    ∃ xs, produced p specs = .ok xs ∧ members'.1 = members.1 ++ xs.map Prod.snd ∧
      (∀ x ∈ xs, x.1 ∈ specs ∧ x.2.controlName = x.1.control) ∧
      members'.2 = specs.foldl (fun overrides spec => Function.update overrides spec.control
        ((overrides spec.control).update spec.overrides)) members.2 := by
  induction specs generalizing members with
  | nil =>
    cases h
    exact ⟨[], rfl, by simp, by simp, rfl⟩
  | cons spec specs ih =>
    rw [foldlM_cons] at h
    obtain ⟨members₁, hadd, h⟩ := exists_of_bind_eq_ok h
    obtain ⟨xs, hxs, hdimensions, hspecs, hoverrides⟩ := ih h
    cases hds : sweepDimensions p spec with
    | error e =>
      rw [addSweep, hds] at hadd
      cases hadd
    | ok ds =>
      rw [addSweep, hds] at hadd
      obtain rfl := Except.ok.inj hadd
      refine ⟨ds.map (spec, ·) ++ xs, ?_, ?_, ?_, hoverrides⟩
      · obtain ⟨xss, hxss, hflatten⟩ := Except.exists_of_map_eq_ok hxs
        rw [produced, mapM_cons, hds, hxss, ← hflatten]
        rfl
      · rw [hdimensions]
        simp
      · intro x hx
        rcases mem_append.mp hx with hx | hx
        · obtain ⟨d, hd, rfl⟩ := mem_map.mp hx
          exact ⟨mem_cons_self, controlName_of_mem hds hd⟩
        · obtain ⟨hmem, hname⟩ := hspecs x hx
          exact ⟨mem_cons_of_mem _ hmem, hname⟩

theorem make_spec {specs : List SweepDim} {grid : ControlGrid}
    (h : ControlGrid.make p specs = .ok grid) :
    ∃ xs, produced p specs = .ok xs ∧ grid.dimensions = xs.map Prod.snd ∧
      (∀ x ∈ xs, x.1 ∈ specs ∧ x.2.controlName = x.1.control) ∧
      (∀ control index,
        (grid.rangeOverrides control).get index = lastOverride specs control index) ∧
      List.Forall₂ (fun d row => gridRow p grid.rangeOverrides d = .ok row) grid.dimensions
        grid.gridData := by
  obtain ⟨⟨dimensions, rangeOverrides⟩, hloop, h⟩ := exists_of_bind_eq_ok h
  obtain ⟨gridData, hrows, h⟩ := exists_of_bind_eq_ok h
  obtain rfl := Except.ok.inj h
  obtain ⟨xs, hxs, hdimensions, hspecs, hoverrides⟩ := foldlM_addSweep hloop
  refine ⟨xs, hxs, hdimensions, hspecs, fun control index => ?_, Prog.mapM_eq_ok.mp hrows⟩
  change (rangeOverrides control).get index = _
  have hnone : (Overrides.get {} index) = none := by cases index <;> rfl
  rw [show rangeOverrides = _ from hoverrides, get_foldl_update, hnone, Option.or_none]

theorem getBound_eq_iff {specs : List SweepDim} {x : SweepDim × Dimension} (hmem : x.1 ∈ specs)
    (hcontrol : x.2.controlName = x.1.control)
    (hoverrides : ∀ control index,
      (rangeOverrides control).get index = lastOverride specs control index) :
    (∀ index, getBound p rangeOverrides x.2 index = x.1.bound p x.2 index) ↔
      Separate p specs x := by
  refine forall_congr' fun index => ?_
  have hget : getBound p rangeOverrides x.2 index = match lastOverride specs x.1.control index with
      | some v => .ok v
      | none => resolveRangeValue p (index.domain x.2.domainType)
          (x.2.controlName.rangeKey index) := by
    rw [getBound, getRange, hoverrides, hcontrol]
  rw [hget]
  cases hlast : lastOverride specs x.1.control index with
  | some v =>
    simp only [Option.some.injEq, forall_eq']
    exact eq_comm
  | none =>
    -- then the specification does not override the bound either
    have hnone := lastOf_eq_none_iff.mp hlast x.1 hmem
    rw [if_pos rfl] at hnone
    refine iff_of_true ?_ (fun v h => nomatch h)
    rw [SweepDim.bound, getBound, getRange, hnone]

theorem rowRight_iff {specs : List SweepDim} {x : SweepDim × Dimension} {row : GridRow}
    (hmem : x.1 ∈ specs) (hcontrol : x.2.controlName = x.1.control)
    (hoverrides : ∀ control index,
      (rangeOverrides control).get index = lastOverride specs control index)
    (hrow : gridRow p rangeOverrides x.2 = .ok row) :
    RowRight p rangeOverrides x row ↔ Separate p specs x ∧ Divides p x := by
  obtain ⟨settings, hsettings, rfl⟩ := Except.exists_of_map_eq_ok hrow
  rw [← getBound_eq_iff hmem hcontrol hoverrides]
  constructor
  · intro h
    exact ⟨h.bound, (isRange_iff_divides hsettings h.bound).mp h.settings⟩
  · rintro ⟨hbound, hdivides⟩
    exact ⟨rfl, rfl, rfl, hbound, (isRange_iff_divides hsettings hbound).mpr hdivides⟩

theorem forall₂_iff_forall {α β : Type} {R S : α → β → Prop} {q : α → Prop} {xs : List α}
    {ys : List β} (h : List.Forall₂ R xs ys) (hiff : ∀ x ∈ xs, ∀ y, R x y → (S x y ↔ q x)) :
    List.Forall₂ S xs ys ↔ ∀ x ∈ xs, q x := by
  induction h with
  | nil => simp
  | cons hR _ ih =>
    rw [forall₂_cons, forall_mem_cons, hiff _ mem_cons_self _ hR,
      ih fun x hx => hiff x (mem_cons_of_mem _ hx)]

theorem means_iff {specs : List SweepDim} {grid : ControlGrid}
    (h : ControlGrid.make p specs = .ok grid) :
    Means p specs grid ↔ ∀ xs, produced p specs = .ok xs →
      ∀ x ∈ xs, Separate p specs x ∧ Divides p x := by
  obtain ⟨xs, hxs, hdimensions, hspecs, hoverrides, hrows⟩ := make_spec h
  rw [hdimensions, forall₂_map_left_iff] at hrows
  have hiff : List.Forall₂ (RowRight p grid.rangeOverrides) xs grid.gridData ↔
      ∀ x ∈ xs, Separate p specs x ∧ Divides p x :=
    forall₂_iff_forall hrows fun x hx row hrow =>
      rowRight_iff (hspecs x hx).1 (hspecs x hx).2 hoverrides hrow
  constructor
  · rintro ⟨xs', hxs', -, hmeans⟩ xs'' hxs''
    obtain rfl := Except.ok.inj (hxs'.symm.trans hxs)
    obtain rfl := Except.ok.inj (hxs''.symm.trans hxs)
    exact hiff.mp hmeans
  · intro hall
    exact ⟨xs, hxs, hdimensions.symm, hiff.mpr (hall xs hxs)⟩

end Platform

/-! ### Coordinates -/

section Coordinates

theorem pyIndex_eq_ok {α : Type} {xs : List α} {i : ℤ} {x : α} : pyIndex xs i = .ok x ↔
    0 ≤ i ∧ xs[i.toNat]? = some x ∨ i < 0 ∧ 0 ≤ i + xs.length ∧ xs[(i + xs.length).toNat]? = some x := by
  have hget (j : ℕ) : (match xs[j]? with
      | some x => .ok x
      | none => .error .indexError : Except GridError α) = .ok x ↔ xs[j]? = some x := by
    cases xs[j]? <;> simp
  rw [pyIndex]
  rcases lt_or_ge i 0 with hi | hi
  · simp only [hi, if_true, hi.not_ge, false_and, false_or, true_and]
    rcases lt_or_ge (i + xs.length) 0 with hj | hj
    · simp [hj, hj.not_ge]
    · rw [if_neg hj.not_gt, hget]
      simp [hj]
  · simp only [hi.not_gt, if_false, hi, true_and, false_and, or_false, hget]

theorem exists_pyIndex_iff {α : Type} {xs : List α} {i : ℤ} :
    (∃ x, pyIndex xs i = .ok x) ↔ -(xs.length : ℤ) ≤ i ∧ i < xs.length := by
  have hget (j : ℕ) : (∃ x, xs[j]? = some x) ↔ j < xs.length := by
    simp [List.getElem?_eq_some_iff]
  simp only [pyIndex_eq_ok, exists_or, exists_and_left, hget]
  omega

theorem mapM_map_eq_ok {α β γ ε : Type} {f : α → Except ε β} {g : α → β → γ} {xs : List α}
    {ys : List γ} : xs.mapM (fun x => (f x).map (g x)) = .ok ys ↔
      ∃ vs, List.Forall₂ (fun x v => f x = .ok v) xs vs ∧ ys = List.zipWith g xs vs := by
  rw [Prog.mapM_eq_ok]
  constructor
  · intro h
    induction h with
    | nil => exact ⟨[], .nil, rfl⟩
    | cons hx _ ih =>
      obtain ⟨v, hv, rfl⟩ := Except.exists_of_map_eq_ok hx
      obtain ⟨vs, hvs, rfl⟩ := ih
      exact ⟨v :: vs, .cons hv hvs, rfl⟩
  · rintro ⟨vs, hvs, rfl⟩
    induction hvs with
    | nil => exact .nil
    | cons hv _ ih => exact .cons (by rw [hv]; rfl) ih

variable {p : Platform} {grid : ControlGrid} {coordinate : List ℤ}

theorem getConfig_eq_ok (hlength : grid.dimensions.length = grid.gridData.length)
    (hne : grid.gridData ≠ []) (hsize : coordinate.length = grid.gridData.length)
    {commands : List Command} :
    getConfig p grid coordinate = .ok commands ↔ ∃ values,
      List.Forall₂ (fun x v => pyIndex x.1.settings x.2 = .ok v) (grid.gridData.zip coordinate)
        values ∧ commands = configOf p grid values := by
  have hpos : ¬ grid.dimensions.length = 0 := by
    rw [hlength, length_eq_zero_iff]
    exact hne
  have hconfig (values : List ℚ) : governorCommands grid ++
      (List.zipWith (fun x => rowCommands p x.1) (grid.gridData.zip coordinate) values).flatten =
        configOf p grid values := by
    rw [configOf, ← zipWith_map_left, map_fst_zip hsize.ge]
  rw [getConfig, if_neg hpos, if_neg (not_not.mpr (hsize.trans hlength.symm))]
  constructor
  · intro h
    obtain ⟨result, hresult, h⟩ := exists_of_bind_eq_ok h
    obtain ⟨values, hvalues, rfl⟩ := mapM_map_eq_ok.mp hresult
    exact ⟨values, hvalues, by rw [← Except.ok.inj h, hconfig]⟩
  · rintro ⟨values, hvalues, rfl⟩
    rw [mapM_map_eq_ok.mpr ⟨values, hvalues, rfl⟩, ← hconfig]
    rfl

theorem exists_forall₂_iff {α β : Type} {R : α → β → Prop} {xs : List α} :
    (∃ ys, List.Forall₂ R xs ys) ↔ ∀ x ∈ xs, ∃ y, R x y := by
  induction xs with
  | nil => simp
  | cons x xs ih =>
    rw [forall_mem_cons, ← ih]
    constructor
    · rintro ⟨ys, h⟩
      cases h with
      | cons hx hxs => exact ⟨⟨_, hx⟩, _, hxs⟩
    · rintro ⟨⟨y, hy⟩, ys, hys⟩
      exact ⟨y :: ys, .cons hy hys⟩

theorem exists_getConfig_iff (hlength : grid.dimensions.length = grid.gridData.length)
    (hne : grid.gridData ≠ []) (hsize : coordinate.length = grid.gridData.length) :
    (∃ commands, getConfig p grid coordinate = .ok commands) ↔
      List.Forall₂ (fun row i => -(row.settings.length : ℤ) ≤ i ∧ i < row.settings.length)
        grid.gridData coordinate := by
  have hvalues : (∃ commands, getConfig p grid coordinate = .ok commands) ↔ ∃ values,
      List.Forall₂ (fun x v => pyIndex x.1.settings x.2 = .ok v) (grid.gridData.zip coordinate)
        values := by
    simp only [getConfig_eq_ok hlength hne hsize]
    exact ⟨fun ⟨_, values, h, _⟩ => ⟨values, h⟩, fun ⟨values, h⟩ => ⟨_, values, h, rfl⟩⟩
  rw [hvalues, exists_forall₂_iff, forall₂_iff_zip]
  simp only [exists_pyIndex_iff, hsize, true_and, Prod.forall]

theorem nonneg_of_forall₂ {rows : List GridRow} {coordinate : List ℤ} (h : List.Forall₂
      (fun row i => -(row.settings.length : ℤ) ≤ i ∧ i < row.settings.length) rows coordinate) :
    List.Forall₂ (fun row i => 0 ≤ i ∧ i < (row.settings.length : ℤ)) rows coordinate ↔
      ∀ i ∈ coordinate, 0 ≤ i := by
  induction h with
  | nil => simp
  | cons hi _ ih => simp [ih, hi.2]

/-- The empty coordinate of a grid without dimensions, and coordinates that index from the end of a
list, are all that is not checked. -/
theorem configRight_iff (hlength : grid.dimensions.length = grid.gridData.length) :
    ConfigRight p grid coordinate ↔
      ¬ (grid.gridData = [] ∧ coordinate = []) ∧ ¬ Wraps grid coordinate := by
  by_cases hne : grid.gridData = []
  · have herror : ∃ e, getConfig p grid coordinate = .error e := by
      rw [hne, length_nil] at hlength
      exact ⟨_, by rw [getConfig, if_pos hlength]⟩
    have hrange : InRange grid coordinate ↔ coordinate = [] := by
      rw [InRange, hne, forall₂_nil_left_iff]
    constructor
    · rintro ⟨hright, -⟩
      refine ⟨fun h => ?_, fun h => ?_⟩
      · obtain ⟨values, -, hconfig⟩ := hright (hrange.mpr h.2)
        obtain ⟨e, he⟩ := herror
        cases he.symm.trans hconfig
      · obtain ⟨hall, i, hi, -⟩ := h
        rw [hne, forall₂_nil_left_iff] at hall
        rw [hall] at hi
        cases hi
    · rintro ⟨hempty, -⟩
      exact ⟨fun h => absurd ⟨hne, hrange.mp h⟩ hempty, fun _ => herror⟩
  by_cases hsize : coordinate.length = grid.gridData.length
  · have hok := exists_getConfig_iff (p := p) hlength hne hsize
    have hin : InRange grid coordinate → ∃ values,
        List.Forall₂ (fun x v => x.1.settings[x.2.toNat]? = some v) (grid.gridData.zip coordinate)
          values ∧ getConfig p grid coordinate = .ok (configOf p grid values) := by
      intro h
      obtain ⟨-, hindex⟩ := forall₂_iff_zip.mp h
      obtain ⟨values, hvalues⟩ := exists_forall₂_iff (R := fun (x : GridRow × ℤ) v =>
        0 ≤ x.2 ∧ x.1.settings[x.2.toNat]? = some v).mpr fun x hx => by
          obtain ⟨hnonneg, hlt⟩ := hindex hx
          exact ⟨_, hnonneg, getElem?_eq_getElem (by omega)⟩
      exact ⟨values, hvalues.imp fun _ _ h => h.2, (getConfig_eq_ok hlength hne hsize).mpr
        ⟨values, hvalues.imp fun _ _ h => pyIndex_eq_ok.mpr (.inl h), rfl⟩⟩
    have hwraps : Wraps grid coordinate ↔
        (∃ commands, getConfig p grid coordinate = .ok commands) ∧ ¬ InRange grid coordinate := by
      rw [Wraps, hok, InRange]
      refine and_congr_right fun hall => ?_
      rw [nonneg_of_forall₂ hall]
      simp
    have herror : (∃ e, getConfig p grid coordinate = .error e) ↔
        ¬ ∃ commands, getConfig p grid coordinate = .ok commands := by
      cases getConfig p grid coordinate <;> simp
    rw [ConfigRight, herror, hwraps]
    constructor
    · rintro ⟨-, hright⟩
      exact ⟨fun h => hne h.1, fun ⟨hcommands, hrange⟩ => hright hrange hcommands⟩
    · rintro ⟨-, hright⟩
      exact ⟨hin, fun hrange hcommands => hright ⟨hcommands, hrange⟩⟩
  · have hforall {R : GridRow → ℤ → Prop} : ¬ List.Forall₂ R grid.gridData coordinate :=
      fun h => hsize h.length_eq.symm
    have hdimensions : ¬ grid.dimensions.length = 0 := by
      rw [hlength, length_eq_zero_iff]
      exact hne
    have herror : ∃ e, getConfig p grid coordinate = .error e :=
      ⟨_, by rw [getConfig, if_neg hdimensions, if_pos (hlength ▸ hsize)]⟩
    exact iff_of_true ⟨fun h => absurd h hforall, fun _ => herror⟩
      ⟨fun h => hne h.1, fun h => hforall h.1⟩

end Coordinates

/-- A grid has the ranges of its specifications exactly when these are separate and divide their
ranges. A coordinate is checked exactly when it does not index from the end of a list, and is not
the empty one of a grid without dimensions. -/
theorem grid_iff {p : Platform} {specs : List SweepDim} {grid : ControlGrid}
    (h : ControlGrid.make p specs = .ok grid) :
    (Means p specs grid ↔ ∀ xs, produced p specs = .ok xs →
      ∀ x ∈ xs, Separate p specs x ∧ Divides p x) ∧
    ∀ coordinate, ConfigRight p grid coordinate ↔
      ¬ (grid.gridData = [] ∧ coordinate = []) ∧ ¬ Wraps grid coordinate := by
  obtain ⟨_, _, _, _, _, hrows⟩ := make_spec h
  exact ⟨means_iff h, fun _ => configRight_iff hrows.length_eq⟩

/-- A platform with one board. -/
def oneBoard : Platform where
  domainName := .ok
  numDomain _ := .ok 1
  controlDomainType _ := .ok "board"
  domainNested _ _ := .ok ()
  readSignal _ _ := .error "no such signal"
  controlNames := []

/-- A range for the power of the board. -/
def boardPower (minimum maximum : ℚ) : SweepDim :=
  ⟨.boardPower, some "board", { minimum := some minimum, maximum := some maximum, step := some 50 }⟩

/-- The dimension of the power of the board. -/
def boardDimension : Dimension := ⟨.boardPower, "board", 0⟩

/-- The row of the power of the board. -/
def boardRow (settings : List ℚ) : GridRow := ⟨"BOARD_POWER_LIMIT_CONTROL", "board", 0, settings⟩

/-- The overrides of the power of the board. -/
def boardOverrides (minimum maximum : ℚ) : Control → Overrides :=
  Function.update (fun _ => {}) .boardPower ⟨some minimum, some maximum, some 50⟩

/-- A grid whose only control is the power of the board. -/
theorem make_board {specs : List SweepDim} {dimensions : List Dimension}
    {rangeOverrides : Control → Overrides} {rows : List GridRow}
    (hloop : specs.foldlM (addSweep oneBoard) ([], fun _ => {}) = .ok (dimensions, rangeOverrides))
    (hrows : dimensions.mapM (gridRow oneBoard rangeOverrides) = .ok rows) :
    ControlGrid.make oneBoard specs = .ok ⟨dimensions, rangeOverrides, rows⟩ := by
  rw [ControlGrid.make, hloop]
  change (dimensions.mapM (gridRow oneBoard rangeOverrides) >>= _) = _
  rw [hrows]
  rfl

theorem grid_iff_board : ∃ grid, ControlGrid.make oneBoard [boardPower 200 300] = .ok grid ∧
    Means oneBoard [boardPower 200 300] grid ∧ ConfigRight oneBoard grid [2] := by
  have hrow : gridRow oneBoard (boardOverrides 200 300) boardDimension =
      .ok (boardRow [200, 250, 300]) := by decide +kernel
  have hmake : ControlGrid.make oneBoard [boardPower 200 300] =
      .ok ⟨[boardDimension], boardOverrides 200 300, [boardRow [200, 250, 300]]⟩ :=
    make_board rfl (by rw [mapM_cons, hrow]; rfl)
  obtain ⟨hmeans, hconfig⟩ := grid_iff hmake
  refine ⟨_, hmake, hmeans.mpr ?_, (hconfig [2]).mpr ⟨by simp, fun h => by simpa using h.2⟩⟩
  intro xs hxs x hx
  have hproduced : produced oneBoard [boardPower 200 300] =
      .ok [(boardPower 200 300, boardDimension)] := rfl
  obtain rfl := Except.ok.inj (hxs.symm.trans hproduced)
  obtain rfl := mem_singleton.mp hx
  constructor
  · intro index v h
    cases index with
    | minimum => exact congrArg _ (Option.some.inj h)
    | maximum => exact congrArg _ (Option.some.inj h)
    | step => exact congrArg _ (Option.some.inj h)
  · intro minimum maximum step hminimum hmaximum hstep
    obtain rfl : 200 = minimum := Except.ok.inj hminimum
    obtain rfl : 300 = maximum := Except.ok.inj hmaximum
    obtain rfl : 50 = step := Except.ok.inj hstep
    exact .inr ⟨by norm_num [absTol], 2, by norm_num⟩

/-- Two specifications of a control share the overrides of the last one. -/
theorem not_grid : ¬ ∀ (p : Platform) (specs : List SweepDim) (grid : ControlGrid),
    ControlGrid.make p specs = .ok grid →
      Means p specs grid ∧ ∀ coordinate, ConfigRight p grid coordinate := by
  intro h
  have hrow : gridRow oneBoard (boardOverrides 400 500) boardDimension =
      .ok (boardRow [400, 450, 500]) := by decide +kernel
  have hmake : ControlGrid.make oneBoard [boardPower 200 300, boardPower 400 500] =
      .ok ⟨[boardDimension, boardDimension], Function.update (boardOverrides 200 300) .boardPower
        ⟨some 400, some 500, some 50⟩, [boardRow [400, 450, 500], boardRow [400, 450, 500]]⟩ := by
    refine make_board rfl ?_
    rw [boardOverrides, Function.update_idem, ← boardOverrides, mapM_cons, mapM_cons,
      hrow]
    rfl
  obtain ⟨hseparate, -⟩ := (means_iff hmake).mp (h _ _ _ hmake).1 _ rfl
    (boardPower 200 300, boardDimension) mem_cons_self
  have hbound : (.ok 200 : Except GridError ℚ) = .ok 400 := hseparate .minimum 400 rfl
  norm_num at hbound

end Geopm.Opt
