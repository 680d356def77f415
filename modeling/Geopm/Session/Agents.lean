import Geopm.Session.Session

/-!
# The agents of a session

* `Arith` : the arithmetic of floats, which may be any;
* `Machine` : what `pio` and `topo` answer to an agent;
* `idle` : the agent of a session that is given none;
* `Heatmap.agent` : `HeatmapAgent`, which enables the counters it samples;
* `GpuActivity.agent` : `GPUActivityAgent`, which writes frequency limits in every period.

The plot and the summary that `run_end` makes are left out, and so is the text of the trace.
-/

namespace Geopm

namespace Session

/-- The operations on floats. -/
structure Arith where
  add : Double → Double → Double
  sub : Double → Double → Double
  mul : Double → Double → Double
  div : Double → Double → Double

/-- What `pio` and `topo` answer. -/
structure Machine where
  /-- The name is in `pio.signal_names`, in `pio.control_names`. -/
  hasSignal : String → Bool
  hasControl : String → Bool
  signalDomain : String → Except External ℤ
  controlDomain : String → Except External ℤ
  numDomain : ℤ → ℕ
  pushSignal : String → ℤ → ℕ → Except External ℕ
  pushControl : String → ℤ → ℕ → Except External Control
  readSignal : String → Except External Double
  saveFails : Option External
  writeFails : Control → Option External

/-- `topo.DOMAIN_BOARD`. -/
def domainBoard : ℤ := 0

/-- `topo.DOMAIN_PACKAGE`. -/
def domainPackage : ℤ := 1

/-- `topo.DOMAIN_GPU`. -/
def domainGpu : ℤ := 8

/-- `topo.DOMAIN_GPU_CHIP`. -/
def domainGpuChip : ℤ := 10

/-- `min(a, b)`. -/
def pyMin (a b : Double) : Double := if b.lt a then b else a

/-- `max(a, b)`. -/
def pyMax (a b : Double) : Double := if a.lt b then b else a

section Members

variable {α : Type}

/-- The members of the agent. -/
def getAgent : Py α α := do return (← get).agent

/-- Assign to members of the agent. -/
def modifyAgent (f : α → α) : Py α Unit := modify fun w => { w with agent := f w.agent }

end Members

/-- `Agent`, whose methods do nothing. -/
def idle : Agent Unit where
  runBegin _ := return
  updateLoop _ := return
  runEnd _ := return

/-! ### The heatmap agent -/

/-- `_CANDIDATE_SIGNALS`. -/
def candidateSignals : List (String × ℤ) :=
  [("CPU_POWER", domainPackage), ("MSR::CPU_SCALABILITY_RATIO", domainPackage),
    ("CPU_FREQUENCY_STATUS", domainPackage), ("CPU_UNCORE_FREQUENCY_STATUS", domainPackage),
    ("DRAM_POWER", domainPackage), ("GPU_POWER", domainGpu), ("GPU_CORE_ACTIVITY", domainGpu),
    ("GPU_UNCORE_ACTIVITY", domainGpu), ("GPU_UTILIZATION", domainGpu)]

/-- `_UNIT_INTERVAL_SIGNALS`. -/
def unitIntervalSignals : List String :=
  ["GPU_CORE_ACTIVITY", "GPU_UNCORE_ACTIVITY", "GPU_UTILIZATION"]

/-- `_IPC_INSTR`. -/
def ipcInstr : String := "CPU_INSTRUCTIONS_RETIRED"

/-- `_IPC_CYCLES`. -/
def ipcCycles : String := "CPU_CYCLES_THREAD"

/-- `_IPC_MAX`. -/
def ipcMax : Double := .num 8

/-- `_IPC_ENABLE_CONTROLS`. -/
def ipcEnableControls : List String :=
  ["MSR::FIXED_CTR_CTRL:EN0_OS", "MSR::FIXED_CTR_CTRL:EN0_USR", "MSR::FIXED_CTR_CTRL:EN1_OS",
    "MSR::FIXED_CTR_CTRL:EN1_USR", "MSR::PERF_GLOBAL_CTRL:EN_FIXED_CTR0",
    "MSR::PERF_GLOBAL_CTRL:EN_FIXED_CTR1"]

/-- The members of `HeatmapAgent`. -/
structure Heatmap where
  signals : List (String × ℤ × ℕ)
  timeIdx : ℕ
  signalIdx : List ℕ
  instrIdx : List ℕ
  cyclesIdx : List ℕ
  ipcPackages : List ℕ
  ipcResolved : Bool
  countersEnabled : Bool
  times : List Double
  rows : List (List Double)
  ipc : List (List Double)
  prevCounts : Option (List (Double × Double))
  curIpc : List Double

namespace Heatmap

variable (ar : Arith) (m : Machine)

/-- `HeatmapAgent.__init__`. -/
def init : Heatmap where
  signals := []
  timeIdx := 0
  signalIdx := []
  instrIdx := []
  cyclesIdx := []
  ipcPackages := []
  ipcResolved := false
  countersEnabled := false
  times := []
  rows := []
  ipc := []
  prevCounts := none
  curIpc := []

def discoverSignals : Py Heatmap (List (String × ℤ × ℕ)) :=
  let signals := (candidateSignals.filter fun c => m.hasSignal c.1).flatMap fun c =>
    (List.range (m.numDomain c.2)).map fun idx : ℕ => (c.1, c.2, idx)
  if signals = [] then throw (.external .runtimeError) else return signals

def resolveIpcPackages (a : Heatmap) : Heatmap :=
  if a.ipcResolved then a
  else { a with
    ipcPackages := if m.hasSignal ipcInstr && m.hasSignal ipcCycles
      then List.range (m.numDomain domainPackage) else []
    ipcResolved := true }

/-- One counter is enabled; a `RuntimeError` is only noted. -/
def enableCounter (c : Control) : Py Heatmap Unit :=
  tryCatch (Pio.writeControl c (.num 1) (m.writeFails c)) fun
    | .external .runtimeError => return
    | e => throw e

/-- The enable controls that are available. -/
def enableControls : List String := ipcEnableControls.filter m.hasControl

def enableIpcCounters : Py Heatmap Unit := do
  let a ← getAgent
  if a.countersEnabled || a.ipcPackages = [] || enableControls m = [] then return
  else do
    Pio.saveControl m.saveFails
    (enableControls m).forM fun name => do
      let domain ← ofExcept .external (m.controlDomain name)
      (List.range (m.numDomain domain)).forM fun idx : ℕ => enableCounter m ⟨name, domain, idx⟩
    modifyAgent fun a => { a with countersEnabled := true }

/-- Push the signals of the rows. -/
def pushSignals : Py Heatmap Unit := do
  let a ← getAgent
  let signals ← (if a.signals = [] then discoverSignals m else pure a.signals)
  let timeIdx ← ofExcept .external (m.pushSignal "TIME" domainBoard 0)
  let signalIdx ← signals.mapM fun (name, domain, idx) =>
    ofExcept .external (m.pushSignal name domain idx)
  modifyAgent fun a => { a with signals := signals, timeIdx := timeIdx, signalIdx := signalIdx }

/-- Push the two counters of a package. -/
def pushCounters (pkg : ℕ) : Py Heatmap (ℕ × ℕ) := do
  let instr ← ofExcept .external (m.pushSignal ipcInstr domainPackage pkg)
  let cycles ← ofExcept .external (m.pushSignal ipcCycles domainPackage pkg)
  return (instr, cycles)

/-- Push the counters of the packages. -/
def pushIpc : Py Heatmap Unit := do
  let a ← getAgent
  let counters ← a.ipcPackages.mapM (pushCounters m)
  modifyAgent fun a => { a with
    instrIdx := counters.map (·.1)
    cyclesIdx := counters.map (·.2)
    prevCounts := none
    curIpc := a.ipcPackages.map fun _ => .nan }

/-- `HeatmapAgent.run_begin`. -/
def runBegin : Py Heatmap Unit := do
  pushSignals m
  modifyAgent (resolveIpcPackages m)
  enableIpcCounters m
  pushIpc m

def sanitizeUnit (value : Double) (bounded : Bool) : Double :=
  let inside := ((Double.num 0).lt value || (Double.num 0).eq value) &&
    (value.lt (.num 1) || value.eq (.num 1))
  if bounded && !inside then .nan else value

def deltaIpc (dInstr dCycles : Double) : Double :=
  if dCycles.lt (.num 0) || dCycles.eq (.num 0) then .nan
  else
    let ipc := ar.div dInstr dCycles
    if ipc.lt (.num 0) then .nan else pyMin ipc ipcMax

/-- The members after `HeatmapAgent.update_loop`. -/
def sampled (sample : ℕ → Double) (a : Heatmap) : Heatmap :=
  let row := (a.signals.zip a.signalIdx).map fun (s, idx) =>
    sanitizeUnit (sample idx) (unitIntervalSignals.contains s.1)
  let a := { a with times := a.times ++ [sample a.timeIdx], rows := a.rows ++ [row] }
  if a.instrIdx = [] then a
  else
    let counts := (a.instrIdx.zip a.cyclesIdx).map fun (i, c) => (sample i, sample c)
    let curIpc := match a.prevCounts with
      | none => a.curIpc
      | some prev => (counts.zip prev).map fun (cur, prev) =>
        deltaIpc ar (ar.sub cur.1 prev.1) (ar.sub cur.2 prev.2)
    { a with curIpc := curIpc, prevCounts := some counts, ipc := a.ipc ++ [curIpc] }

/-- `HeatmapAgent`. -/
def agent : Agent Heatmap where
  runBegin env := do
    attempt env.beginFails
    runBegin m
  updateLoop t := do
    attempt t.updateFails
    modify fun w => { w with agent := sampled ar w.samples w.agent }
  runEnd env := attempt env.endFails

end Heatmap

/-! ### The GPU activity agent -/

/-- `_FE_CONSTCONFIG`. -/
def feConstConfig : String := "CONST_CONFIG::GPU_FREQUENCY_EFFICIENT_HIGH_INTENSITY"

/-- `_FE_SIG_NAME`. -/
def feSigName : String := "LEVELZERO::GPU_CORE_FREQUENCY_EFFICIENT"

/-- `_activity_source`. -/
inductive ActivitySource where
  | levelzero
  | drmIdle
deriving DecidableEq

/-- What `GPUActivityAgent` keeps for one index of its domain; the source has a list for each
member. -/
structure GpuDomain where
  activityIdx : ℕ
  utilizationIdx : ℕ
  idleIdx : ℕ
  freqMin : Control
  freqMax : Control
  freqMinLast : Double
  freqMaxLast : Double
  idleLast : Double

/-- The members of `GPUActivityAgent`. -/
structure GpuActivity where
  phi : Double
  agentDomain : Option ℤ
  domains : List GpuDomain
  source : ActivitySource
  hasUtilization : Bool
  timeIdx : ℕ
  timeLast : Double
  freqGpuMin : Double
  freqGpuMax : Double
  freqGpuEfficient : Double
  resolvedFGpuMax : Double
  resolvedFGpuEfficient : Double
  fRange : Double
  frequencyRequests : ℕ
  frequencyClipped : ℕ

namespace GpuActivity

variable (ar : Arith) (m : Machine)

/-- The activity signal that the platform has. -/
def activitySource : Py GpuActivity ActivitySource :=
  if m.hasSignal "GPU_CORE_ACTIVITY" then return .levelzero
  else if m.hasSignal "DRM::IDLE_RESIDENCY" then return .drmIdle
  else throw (.external .runtimeError)

/-- The signals whose domains are resolved. -/
def resolvedSignals (source : ActivitySource) (hasUtilization : Bool) : List String :=
  (if m.hasSignal "GPU_CORE_FREQUENCY_STATUS" then ["GPU_CORE_FREQUENCY_STATUS"] else []) ++
    match source with
    | .levelzero => "GPU_CORE_ACTIVITY" :: if hasUtilization then ["GPU_UTILIZATION"] else []
    | .drmIdle => ["DRM::IDLE_RESIDENCY"]

/-- The coarsest domain of the controls and the signals. -/
def resolveDomain (source : ActivitySource) (hasUtilization : Bool) : Py GpuActivity ℤ := do
  let minDomain ← ofExcept .external (m.controlDomain "GPU_CORE_FREQUENCY_MIN_CONTROL")
  let maxDomain ← ofExcept .external (m.controlDomain "GPU_CORE_FREQUENCY_MAX_CONTROL")
  let domains ← (resolvedSignals m source hasUtilization).mapM fun name =>
    ofExcept .external (m.signalDomain name)
  let domain := domains.foldl min (min minDomain maxDomain)
  if domain ≠ domainGpu ∧ domain ≠ domainGpuChip then throw (.external .runtimeError)
  else return domain

/-- Push the signals and the controls of one index of the domain. -/
def pushDomain (source : ActivitySource) (hasUtilization : Bool) (domain : ℤ) (idx : ℕ) :
    Py GpuActivity GpuDomain := do
  let activityIdx ← (if source = .levelzero
    then ofExcept .external (m.pushSignal "GPU_CORE_ACTIVITY" domain idx) else pure 0)
  let utilizationIdx ← (if source = .levelzero ∧ hasUtilization
    then ofExcept .external (m.pushSignal "GPU_UTILIZATION" domain idx) else pure 0)
  let idleIdx ← (if source = .drmIdle
    then ofExcept .external (m.pushSignal "DRM::IDLE_RESIDENCY" domain idx) else pure 0)
  let freqMin ← ofExcept .external (m.pushControl "GPU_CORE_FREQUENCY_MIN_CONTROL" domain idx)
  let freqMax ← ofExcept .external (m.pushControl "GPU_CORE_FREQUENCY_MAX_CONTROL" domain idx)
  return ⟨activityIdx, utilizationIdx, idleIdx, freqMin, freqMax, .nan, .nan, .nan⟩

/-- The efficient frequency. -/
def efficientFrequency (freqMin freqMax : Double) : Py GpuActivity Double :=
  if m.hasSignal feConstConfig then ofExcept .external (m.readSignal feConstConfig)
  else if m.hasSignal feSigName then ofExcept .external (m.readSignal feSigName)
  else return ar.div (ar.add freqMax freqMin) (.num 2)

/-- `GPUActivityAgent.run_begin` without its last statement. -/
def prepare : Py GpuActivity Unit := do
  (if m.numDomain domainGpu = 0 then throw (.external .runtimeError) else pure ())
  let source ← activitySource m
  let hasUtilization := source = .levelzero && m.hasSignal "GPU_UTILIZATION"
  let domain ← resolveDomain m source hasUtilization
  let domains ← (List.range (m.numDomain domain)).mapM
    (pushDomain m source hasUtilization domain)
  let timeIdx ← (if source = .drmIdle
    then ofExcept .external (m.pushSignal "TIME" domainBoard 0) else pure 0)
  let freqMin ← ofExcept .external (m.readSignal "GPU_CORE_FREQUENCY_MIN_AVAIL")
  let freqMax ← ofExcept .external (m.readSignal "GPU_CORE_FREQUENCY_MAX_AVAIL")
  let efficient ← efficientFrequency ar m freqMin freqMax
  (if freqMax.lt efficient || efficient.lt freqMin then throw (.external .runtimeError)
    else pure ())
  modifyAgent fun a => { a with
    agentDomain := some domain
    domains := domains
    source := source
    hasUtilization := hasUtilization
    timeIdx := timeIdx
    timeLast := .nan
    freqGpuMin := freqMin
    freqGpuMax := freqMax
    freqGpuEfficient := efficient
    frequencyRequests := 0
    frequencyClipped := 0 }

/-- `GPUActivityAgent.run_begin`. -/
def runBegin : Py GpuActivity Unit := do
  prepare ar m
  Pio.saveControl m.saveFails

/-- The frequencies that `phi` resolves to. -/
def resolve (a : GpuActivity) : GpuActivity :=
  let range := ar.sub a.freqGpuMax a.freqGpuEfficient
  let half := Double.num (1 / 2)
  let fMax := if half.lt a.phi
    then pyMax a.freqGpuEfficient
      (ar.sub a.freqGpuMax (ar.div (ar.mul range (ar.sub a.phi half)) half))
    else a.freqGpuMax
  let fEfficient := if a.phi.lt half
    then pyMin a.freqGpuMax
      (ar.add a.freqGpuEfficient (ar.div (ar.mul range (ar.sub half a.phi)) half))
    else a.freqGpuEfficient
  { a with
    resolvedFGpuMax := fMax
    resolvedFGpuEfficient := fEfficient
    fRange := ar.sub fMax fEfficient }

/-- The activity and the utilization of one index of the domain. -/
def measure (a : GpuActivity) (sample : ℕ → Double) (timeDelta : Double) (d : GpuDomain) :
    Double × Double :=
  match a.source with
  | .levelzero =>
    (sample d.activityIdx, if a.hasUtilization then sample d.utilizationIdx else .num 1)
  | .drmIdle =>
    -- NaN is not greater than zero
    if (Double.num 0).lt timeDelta && !d.idleLast.isNan then
      let busy := ar.sub (.num 1) (ar.div (ar.sub (sample d.idleIdx) d.idleLast) timeDelta)
      (pyMin (pyMax busy (.num 0)) (.num 1), .num 1)
    else (.nan, .num 1)

/-- The frequency that is asked for before it is clamped. -/
def request (a : GpuActivity) (activity utilization : Double) : Double :=
  if activity.isNan then a.resolvedFGpuMax
  else
    let activity := pyMin activity (.num 1)
    if !utilization.isNan && (Double.num 0).lt utilization then
      ar.add a.resolvedFGpuEfficient
        (ar.mul a.fRange (ar.div activity (pyMin utilization (.num 1))))
    else ar.add a.resolvedFGpuEfficient (ar.mul a.fRange activity)

/-- One index of the domain in `update_loop`: the controls are adjusted when the request has
changed.  The result is the index with its members, and whether they were adjusted. -/
def updateDomain (sample : ℕ → Double) (timeDelta : Double) (d : GpuDomain) :
    Py GpuActivity (GpuDomain × Bool) := do
  let a ← getAgent
  let (activity, utilization) := measure ar a sample timeDelta d
  let wanted := request ar a activity utilization
  let clipped := a.resolvedFGpuMax.lt wanted || wanted.lt a.resolvedFGpuEfficient
  let f := pyMax (pyMin wanted a.resolvedFGpuMax) a.resolvedFGpuEfficient
  let d := match a.source with
    | .levelzero => d
    | .drmIdle => { d with idleLast := sample d.idleIdx }
  modifyAgent fun a =>
    { a with frequencyClipped := a.frequencyClipped + if clipped then 1 else 0 }
  if !f.eq d.freqMinLast || !f.eq d.freqMaxLast then do
    Pio.adjust d.freqMin f
    Pio.adjust d.freqMax f
    modifyAgent fun a => { a with frequencyRequests := a.frequencyRequests + 1 }
    return ({ d with freqMinLast := f, freqMaxLast := f }, true)
  else return (d, false)

/-- `GPUActivityAgent.update_loop`. -/
def updateLoop (t : Tick) : Py GpuActivity Unit := do
  attempt t.updateFails
  modifyAgent (resolve ar)
  let a ← getAgent
  let sample := (← get).samples
  let timeDelta := if a.source = .drmIdle && !a.timeLast.isNan
    then ar.sub (sample a.timeIdx) a.timeLast else .nan
  let domains ← a.domains.mapM (updateDomain ar sample timeDelta)
  modifyAgent fun a => { a with
    domains := domains.map (·.1)
    timeLast := if a.source = .drmIdle then sample a.timeIdx else a.timeLast }
  if domains.any (·.2) then Pio.writeBatch t.batchFails else return

/-- `GPUActivityAgent`. -/
def agent : Agent GpuActivity where
  runBegin env := do
    attempt env.beginFails
    runBegin ar m
  updateLoop := updateLoop ar
  runEnd env := attempt env.endFails

end GpuActivity

end Session

end Geopm
