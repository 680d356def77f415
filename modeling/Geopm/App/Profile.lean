import Geopm.App.RecordLog

/-!
# `ProfileImp`

The application marks its regions, and the profile tells the controller in two ways: the record log
says when the outermost region is entered and left, and the status table shows the region and the
hint for every CPU of the process.

* `AppStatus` : the status table of `ApplicationStatusImp`;
* `Profile.connect`, `Profile.enter`, `Profile.exit` : the methods of `ProfileImp`;
* `ProfileSystem` : the application, which goes on after an exception, and the controller.
-/

namespace Geopm

open Prog

/-! ### Hints and region IDs -/

/-- `GEOPM_REGION_HINT_UNSET`. -/
def hintUnset : ℕ := 0

/-- `GEOPM_REGION_HINT_UNKNOWN`. -/
def hintUnknown : ℕ := 1

/-- `GEOPM_REGION_HINT_NETWORK`. -/
def hintNetwork : ℕ := 4

/-- `GEOPM_NUM_REGION_HINT`. -/
def numRegionHint : ℕ := 11

def checkHint {σ : Type} (hint : ℕ) : EStateM Exception σ Unit :=
  if numRegionHint ≤ hint then
    throw ⟨"Helper::check_hint(): hint out of range: %", [hint], .invalid⟩
  else pure ()

theorem wp_checkHint {σ : Type} {hint : ℕ} {Q : Unit → σ → Prop} {E : Exception → σ → Prop}
    {s : σ} (hhint : hint < numRegionHint) (hQ : Q ⟨⟩ s) : wp (checkHint hint) Q E s := by
  unfold checkHint
  rw [if_neg (by omega)]
  exact hQ

/-- `geopm_region_id_hash`. -/
def regionIdHash (regionId : ℕ) : ℕ :=
  let ret := regionId % 2 ^ 32
  if ret = regionHashInvalid then regionHashUnmarked else ret

/-- `geopm_region_id_is_mpi`. -/
def regionIdIsMpi (regionId : ℕ) : Bool := regionId.testBit 62

/-- `geopm_region_id_hint`. -/
def regionIdHint (regionId : ℕ) : ℕ :=
  if regionId = regionHashUnmarked then hintUnknown
  else if regionIdIsMpi regionId then hintNetwork
  else
    let ret := regionId / 2 ^ 32
    if ret = 0 ∨ numRegionHint ≤ ret then hintUnknown else ret

/-! ### The status table -/

/-- `m_app_status_s`. -/
structure CpuStatus where
  hint : ℕ := 0
  hash : ℕ := 0
  totalWork : ℕ := 0
  completedWork : ℕ := 0
deriving DecidableEq, Repr

/-- The members of `ApplicationStatusImp` that the application uses. -/
structure AppStatus where
  numCpu : ℕ
  buffer : ℕ → CpuStatus := fun _ => {}

namespace AppStatus

/-- Change the status of one CPU. -/
def update (s : AppStatus) (cpuIdx : ℕ) (f : CpuStatus → CpuStatus) : AppStatus :=
  { s with buffer := Function.update s.buffer cpuIdx (f (s.buffer cpuIdx)) }

def setHint (cpuIdx hint : ℕ) : EStateM Exception AppStatus Unit := do
  if (← get).numCpu ≤ cpuIdx then
    throw ⟨"ApplicationStatusImp::set_hint(): invalid CPU index: %", [cpuIdx], .invalid⟩
  checkHint hint
  modify fun s => s.update cpuIdx fun cpu => { cpu with hint := hint }

def setHash (cpuIdx hash hint : ℕ) : EStateM Exception AppStatus Unit := do
  if (← get).numCpu ≤ cpuIdx then
    throw ⟨"ApplicationStatusImp::set_hash(): invalid CPU index: %", [cpuIdx], .invalid⟩
  if uint32Max < hash then
    throw ⟨"ApplicationStatusImp::set_hash(): invalid region hash: %", [hash], .invalid⟩
  checkHint hint
  modify fun s => s.update cpuIdx fun cpu => { cpu with hash := hash, hint := hint }

def resetWorkUnits (cpuIdx : ℕ) : EStateM Exception AppStatus Unit := do
  if (← get).numCpu ≤ cpuIdx then
    throw ⟨"ApplicationStatusImp::reset_work_units(): invalid CPU index: %", [cpuIdx], .invalid⟩
  modify fun s => s.update cpuIdx fun cpu => { cpu with totalWork := 0, completedWork := 0 }

end AppStatus

/-! ### The profile -/

/-- What the `Scheduler` says of the process: the number of CPUs, and which of them it may use. -/
structure Scheduler where
  numCpu : ℕ
  procCpuset : ℕ → Bool

/-- The members of `ProfileImp`. -/
structure Profile where
  isEnabled : Bool := false
  currRegionId : ℕ := 0
  currentHash : ℕ := regionHashUnmarked
  numCpu : ℕ
  cpuSet : List ℕ := []
  appStatus : AppStatus
  appRecordLog : RecordLog
  /-- The top of the stack comes first. -/
  hintStack : List ℕ := []

namespace Profile

/-- A method of the profile. -/
abbrev Method := EStateM Exception Profile

/-- A call into the record log. -/
def onLog (m : RecordLog.Method Unit) : Method Unit :=
  zoom appRecordLog (fun l p => { p with appRecordLog := l }) m

/-- A call into the status table. -/
def onStatus (m : EStateM Exception AppStatus Unit) : Method Unit :=
  zoom appStatus (fun s p => { p with appStatus := s }) m

/-- A loop over the CPUs of the process. -/
def forCpus (f : ℕ → EStateM Exception AppStatus Unit) : Method Unit := do
  (← get).cpuSet.forM fun cpu => onStatus (f cpu)

/-- `reset_cpu_set`, at the time `now`. -/
def resetCpuSet (scheduler : Scheduler) (now : ℤ) : Method Unit := do
  modify fun p => { p with cpuSet := (List.range p.numCpu).filter scheduler.procCpuset }
  let p ← get
  let hint := match p.hintStack with
    | [] => hintUnset
    | hint :: _ => hint
  forCpus fun cpu => AppStatus.setHash cpu p.currentHash hint
  onLog (RecordLog.cpusetChanged now scheduler.numCpu scheduler.procCpuset)

/-- `connect`, when `platform_start_profile` does `startProfile`: the service creates the status
table and the record log. -/
def connect (startProfile : Except Exception Unit) (scheduler : Scheduler) (profileHash : ℕ)
    (zero now : ℤ) : Method Unit :=
  tryCatch (do
      match startProfile with
      | .error ex => throw ex
      | .ok _ => pure ()
      onLog (RecordLog.startProfile zero profileHash)
      resetCpuSet scheduler now
      modify fun p => { p with isEnabled := true })
    -- The application runs on without a profile.
    fun _ => pure ()

def setHint (hint : ℕ) : Method Unit := do
  if !(← get).isEnabled then return
  forCpus fun cpu => AppStatus.setHint cpu hint

/-- `enter`, at the time `now`. -/
def enter (regionId : ℕ) (now : ℤ) : Method Unit := do
  if !(← get).isEnabled then return
  let hash := regionIdHash regionId
  let hint := regionIdHint regionId
  checkHint hint
  if (← get).currentHash = regionHashUnmarked then
    -- not currently in a region; enter region
    modify fun p => { p with currentHash := hash }
    onLog (RecordLog.enter hash now)
    forCpus fun cpu => AppStatus.setHash cpu hash hint
  else
    -- top level and nested entries inside a region both update hints
    setHint hint
  modify fun p => { p with hintStack := hint :: p.hintStack }

/-- `exit`, at the time `now`. -/
def exit (regionId : ℕ) (now : ℤ) : Method Unit := do
  if !(← get).isEnabled then return
  let hash := regionIdHash regionId
  match (← get).hintStack with
  | [] =>
    throw ⟨"Profile::exit(): expected at least one enter before exit call", [], .runtime⟩
  | _ :: hints => do
    modify fun p => { p with hintStack := hints }
    match hints with
    | [] => do
      -- leaving outermost region, clear hints and exit region
      onLog (RecordLog.exit hash now)
      modify fun p => { p with currentHash := regionHashUnmarked }
      forCpus fun cpu => do
        AppStatus.setHash cpu regionHashUnmarked hintUnset
        AppStatus.resetWorkUnits cpu
    -- still nested, restore previous hint
    | hint :: _ => setHint hint

end Profile

/-! ### The application and the controller -/

/-- The application enters or leaves a region, or the controller dumps the log. -/
inductive ProfileAction where
  | enter (regionId : ℕ) (now : ℤ)
  | exit (regionId : ℕ) (now : ℤ)
  | dump
deriving DecidableEq, Repr

/-- The profile, the regions that the application is in, the records that the controller has been
given, and the time of the last call. -/
structure ProfileSystem where
  profile : Profile
  /-- The regions whose `enter` has returned and whose `exit` has not, innermost first. -/
  regions : List ℕ := []
  dumped : List Record := []
  clock : ℤ

namespace ProfileSystem

/-- The application has been started, and has connected to the service. -/
def start (process : ℤ) (scheduler : Scheduler) (numCpu profileHash : ℕ) (zero now : ℤ) :
    ProfileSystem where
  profile := final (Profile.connect (.ok ()) scheduler profileHash zero now)
    { numCpu := numCpu
      appStatus := { numCpu := numCpu }
      appRecordLog := { process := process } }
  clock := now

/-- One step of the system; the application goes on after an exception. -/
def next (s : ProfileSystem) : ProfileAction → ProfileSystem
  | .enter regionId now =>
    match Profile.enter regionId now s.profile with
    | .ok _ p => { s with profile := p, regions := regionId :: s.regions, clock := now }
    | .error _ p => { s with profile := p, clock := now }
  | .exit regionId now =>
    match Profile.exit regionId now s.profile with
    | .ok _ p => { s with profile := p, regions := s.regions.tail, clock := now }
    | .error _ p => { s with profile := p, clock := now }
  | .dump =>
    match RecordLog.dump s.profile.appRecordLog with
    | .ok dumped l =>
      { s with profile := { s.profile with appRecordLog := l }, dumped := s.dumped ++ dumped.1 }
    | .error _ l => { s with profile := { s.profile with appRecordLog := l } }

/-- The records that have been logged. -/
def records (s : ProfileSystem) : List Record := s.dumped ++ s.profile.appRecordLog.records

end ProfileSystem

/-- The application and the controller at a profile. -/
def profileSystem : Lts ProfileSystem ProfileAction := Lts.ofFun ProfileSystem.next

end Geopm
