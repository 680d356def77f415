import Geopm.Agent.FrequencyTimeBalancer
import Geopm.Lib.CheckedVector
import Geopm.Pio.PlatformTopo

/-!
# The agent that balances frequencies among the cores of a package

The agent remembers a frequency for each core, which the balancer of a package computes when epochs
have passed.  At each call it derives the frequencies for the moment from them, and the classes of
service.  A function that returns `none` has left the range of a vector, or has thrown.

* `Platform`, `SSTFrequencyLimitDetector`, `SSTClosGovernor` : the platform, what limits are
  expected of the cores, and the classes that they are in;
* `Constants`, `Agent` : the members that are fixed by the constructor, and the others;
* `initPlatformIo`, `samplePlatform`, `adjustPlatform` : the methods;
* `Call`, `next` : the calls of a controller.
-/

namespace Geopm.FrequencyBalancerAgent

open CheckedVector
open Pio (Value PlatformTopoImp DomainType)

/-! ### The platform -/

/-- Frequencies that are achieved with a number of high priority cores. -/
structure Bucket where
  hpCores : ℕ
  sseFrequency : Value
  avx2Frequency : Value
  avx512Frequency : Value

/-- What the agent and the objects that it uses read from the platform when they are constructed,
and the order in which `std::sort` leaves the cores of a package. -/
structure Platform where
  topo : PlatformTopoImp
  freqDomain : DomainType
  frequencyMin : ℚ
  frequencyMax : ℚ
  frequencySticker : ℚ
  frequencyStep : ℚ
  allCoreTurboFrequency : Value
  buckets : List Bucket
  lowPrioritySseFrequency : ℚ
  lowPriorityAvx2Frequency : ℚ
  lowPriorityAvx512Frequency : ℚ
  waiterPeriod : ℚ
  sortCores : ∀ n, (Fin n → Value) → (Fin n → Value) → List (Fin n)
  numPackage_pos : 0 < topo.numPackage
  corePerPackage_pos : 0 < topo.corePerPackage
  threadPerCore_pos : 0 < topo.threadPerCore
  frequencyStep_ne_zero : frequencyStep ≠ 0

/-- The elements of a `std::set`, in the order of its iterators. -/
def iterate (set : List ℤ) : List ℕ := (set.dedup.insertionSort (· ≤ ·)).map Int.toNat

/-- The members that the constructors fix: the control indices of each package, and its cores. -/
structure Constants extends Platform where
  packageCoreIndices : List (List ℕ)
  coresInPackages : List (List ℕ)

/-- The indices of a domain that are nested in each package. -/
def indicesInPackages (t : PlatformTopoImp) (domain : DomainType) :
    Except Exception (List (List ℕ)) :=
  (List.range t.numPackage).mapM fun i : ℕ => (t.domainNested domain .package i).map iterate

/-- The constructors.  The indices are those of the domain of the frequency control, and the cores
those of the domain that `m_frequency_ctl_domain_type` has afterwards. -/
def Platform.construct (p : Platform) : Except Exception Constants := do
  let packageCoreIndices ← indicesInPackages p.topo p.freqDomain
  let coresInPackages ← indicesInPackages p.topo .core
  .ok { p with packageCoreIndices, coresInPackages }

/-- `m_frequency_control_domain_count`: the classes of service are those of the cores. -/
def Platform.controlCount (p : Platform) : ℕ := p.topo.numDomain .core

/-! ### The limits of the cores -/

/-- Numbers of high priority cores, each with the frequency that is achievable with it. -/
abbrev Limits := List (ℕ × Value)

/-- The members of `SSTFrequencyLimitDetector` that change. -/
structure SSTFrequencyLimitDetector where
  coreFrequencyLimits : List Limits
  coreLpFrequencies : List ℚ

/-- What the detector samples: whether a package has prioritized turbo, the class of a core and the
limit of its frequency. -/
structure LimitSamples where
  sstTfEnable : ℕ → Value
  closAssociation : ℕ → Value
  frequencyLimit : ℕ → Value

namespace SSTFrequencyLimitDetector

/-- The detector after its constructor. -/
def init (p : Platform) : SSTFrequencyLimitDetector where
  coreFrequencyLimits :=
    List.replicate p.controlCount [(p.controlCount / p.topo.numPackage, some p.frequencyMax)]
  coreLpFrequencies := List.replicate p.controlCount p.frequencySticker

/-- The limits and the low priority frequency of a core are replaced. -/
def setCore (d : SSTFrequencyLimitDetector) (coreIdx : ℕ) (limits : Limits) (lpFrequency : ℚ) :
    Option SSTFrequencyLimitDetector := do
  let coreFrequencyLimits ← put d.coreFrequencyLimits coreIdx limits
  let coreLpFrequencies ← put d.coreLpFrequencies coreIdx lpFrequency
  some { coreFrequencyLimits, coreLpFrequencies }

def isFrequencyNearLimit (p : Platform) (frequency limit : Value) : Bool :=
  frequency.gt (limit.sub (some p.frequencyStep))

/-- The frequencies that are expected at the count of high priority cores: those of the smallest
bucket that contains it. -/
def bucketOf (p : Platform) (hpCoreCount : ℕ) : Bucket :=
  (p.buckets.find? fun b => decide (hpCoreCount ≤ b.hpCores)).getD
    ⟨hpCoreCount, p.allCoreTurboFrequency, p.allCoreTurboFrequency, p.allCoreTurboFrequency⟩

/-- The limits and the low priority frequency of a core, from the frequency that was observed. -/
def estimate (p : Platform) (b : Bucket) (observed limit : Value) : Limits × ℚ :=
  if observed.gt b.avx2Frequency || Value.le b.sseFrequency observed ||
      (limit.le b.avx2Frequency && isFrequencyNearLimit p observed limit) then
    (p.buckets.map fun b => (b.hpCores, b.sseFrequency), p.lowPrioritySseFrequency)
  else if observed.gt b.avx512Frequency || Value.le b.avx2Frequency observed ||
      (limit.le b.avx512Frequency && isFrequencyNearLimit p observed limit) then
    (p.buckets.map fun b => (b.hpCores, b.avx2Frequency), p.lowPriorityAvx2Frequency)
  else (p.buckets.map fun b => (b.hpCores, b.avx512Frequency), p.lowPriorityAvx512Frequency)

/-- `*std::max_element`, which needs an element. -/
def maxElement : List Value → Option Value
  | [] => none
  | frequency :: rest => some (rest.foldl Value.max frequency)

/-- `update_max_frequency_estimates` for a package. -/
def updatePackage (c : Constants) (observed : List Value) (samples : LimitSamples)
    (d : SSTFrequencyLimitDetector) (packageIdx : ℕ) : Option SSTFrequencyLimitDetector := do
  let coresInPackage ← c.coresInPackages[packageIdx]?
  if samples.sstTfEnable packageIdx ≠ some 0 then
    let hpCoreCount := coresInPackage.countP fun idx => (samples.closAssociation idx).le (some 1)
    coresInPackage.foldlM (fun d coreIdx => do
      let frequency ← observed[coreIdx]?
      let (limits, lpFrequency) := estimate c.toPlatform (bucketOf c.toPlatform hpCoreCount)
        frequency (samples.frequencyLimit coreIdx)
      d.setCore coreIdx limits lpFrequency) d
  else
    let frequencies ← coresInPackage.mapM fun coreIdx => observed[coreIdx]?
    let maxFrequency ← maxElement frequencies
    coresInPackage.foldlM (fun d coreIdx =>
      d.setCore coreIdx [(coresInPackage.length, maxFrequency)] c.frequencySticker) d

def updateMaxFrequencyEstimates (c : Constants) (observed : List Value) (samples : LimitSamples)
    (d : SSTFrequencyLimitDetector) : Option SSTFrequencyLimitDetector :=
  (List.range c.topo.numPackage).foldlM (updatePackage c observed samples) d

end SSTFrequencyLimitDetector

/-! ### The classes of service -/

/-- `SSTClosGovernor::ClosLevel_e`. -/
inductive ClosLevel where
  | highPriority | mediumHighPriority | mediumLowPriority | lowPriority
deriving DecidableEq, Repr

/-- The members of `SSTClosGovernorImp`: the classes that the cores were adjusted to last. -/
structure SSTClosGovernor where
  doWriteBatch : Bool
  isEnabled : Bool
  lastClos : List ClosLevel

def SSTClosGovernor.adjustPlatform (numClosAssocCtlDomain : ℕ) (g : SSTClosGovernor)
    (closByCore : List ClosLevel) : Option SSTClosGovernor :=
  if closByCore.length ≠ numClosAssocCtlDomain then none
  else if g.isEnabled then
    some { g with doWriteBatch := decide (closByCore ≠ g.lastClos), lastClos := closByCore }
  else some { g with doWriteBatch := false }

/-! ### The members of the agent -/

/-- The members of the agent that its methods change. -/
structure Agent where
  isAdjustInitialized : Bool
  policyUseFrequencyLimits : Bool
  useSstTf : Bool
  handleNewEpoch : Bool
  lastCtlFrequency : List Value
  lastCtlClos : List ClosLevel
  lastHash : List Value
  networkHintSampleLength : List ℕ
  nonNetworkHintSampleLength : List ℕ
  currentEpochMaxFrequency : List Value
  lastEpochMaxFrequency : List Value
  lastEpochFrequency : List (List Value)
  lastEpochNetworkTime : List (List Value)
  lastEpochNonNetworkTimeDiff : List (List Value)
  lastEpochTime : Value
  lastEpochCount : Value
  epochWaitCount : ℕ
  packageBalancers : List FrequencyTimeBalancer
  frequencyLimitDetector : SSTFrequencyLimitDetector
  sstClosGovernor : SSTClosGovernor

section Methods

variable (c : Constants)

/-- The constructor and `init_platform_io`, which throws when the frequency cannot be controlled at
the cores. -/
def initPlatformIo : Except Exception Agent :=
  if ¬ PlatformTopoImp.isNestedDomain c.freqDomain .core then
    .error ⟨"FrequencyGovernorImp::set_domain_type(): Attempted to set a frequency control domain " ++
      "that does not contain the native domain for CPU_FREQUENCY_MAX_CONTROL.", [], .invalid⟩
  else
    let perPackage := c.packageCoreIndices.map fun indices => List.replicate indices.length none
    .ok {
      isAdjustInitialized := false
      policyUseFrequencyLimits := true
      useSstTf := false
      handleNewEpoch := false
      lastCtlFrequency := List.replicate c.controlCount (some c.frequencyMax)
      lastCtlClos := List.replicate c.controlCount .highPriority
      lastHash := List.replicate c.controlCount none
      networkHintSampleLength := List.replicate c.controlCount 0
      nonNetworkHintSampleLength := List.replicate c.controlCount 0
      currentEpochMaxFrequency := List.replicate c.controlCount (some c.frequencyMin)
      lastEpochMaxFrequency := List.replicate c.controlCount none
      lastEpochFrequency := perPackage
      lastEpochNetworkTime := perPackage
      lastEpochNonNetworkTimeDiff := perPackage
      lastEpochTime := none
      lastEpochCount := none
      epochWaitCount := 3
      packageBalancers := List.replicate c.topo.numPackage
        { minimumFrequency := c.frequencyMin, maximumFrequency := c.frequencyMax
          frequencyStepSize := c.frequencyStep }
      frequencyLimitDetector := .init c.toPlatform
      sstClosGovernor := ⟨false, true, List.replicate c.controlCount .highPriority⟩ }

/-! ### `sample_platform` -/

/-- `GEOPM_REGION_HINT_NETWORK`. -/
def hintNetwork : ℚ := 4

/-- A hash of an application region: neither NaN nor `GEOPM_REGION_HASH_INVALID`. -/
def isApplication (hash : Value) : Bool := decide (hash ≠ none ∧ hash ≠ some 0)

/-- What is sampled: the hash, the hint and the network time of a control, and its frequency since
the last sample and since the last epoch, which the agent gets from two counters. -/
structure Samples where
  hash : ℕ → Value
  hint : ℕ → Value
  frequency : ℕ → Value
  epochFrequency : ℕ → Value
  networkTime : ℕ → Value
  epochCount : Value
  time : Value

/-- The counts of samples in a row with and without the network hint. -/
def countHints (a : Agent) (s : Samples) : Agent :=
  { a with
    lastHash := (List.range c.controlCount).map s.hash
    networkHintSampleLength := a.networkHintSampleLength.mapIdx fun i n =>
      if s.hint i = some hintNetwork then n + 1 else 0
    nonNetworkHintSampleLength := a.nonNetworkHintSampleLength.mapIdx fun i n =>
      if s.hint i = some hintNetwork then 0 else n + 1
    currentEpochMaxFrequency := a.currentEpochMaxFrequency.mapIdx fun i frequency =>
      if isApplication (s.hash i) then frequency.max (s.frequency i) else frequency }

/-- The time per epoch that a control has not spent in the network. -/
def nonNetworkTime (timeDiff countedEpochs newTime lastTime : Value) : Value :=
  (Value.max (some 0) (timeDiff.sub (newTime.sub lastTime))).quot countedEpochs

/-- The differences over a group of epochs, for the controls of the packages. -/
def evaluateEpochs (a : Agent) (s : Samples) (countedEpochs : Value) : Agent :=
  let timeDiff := s.time.sub a.lastEpochTime
  { a with
    lastEpochFrequency := c.packageCoreIndices.map fun indices => indices.map s.epochFrequency
    lastEpochNonNetworkTimeDiff := c.packageCoreIndices.mapIdx fun package indices =>
      indices.mapIdx fun nested ctl =>
        nonNetworkTime timeDiff countedEpochs (s.networkTime ctl)
          ((a.lastEpochNetworkTime.getD package []).getD nested none)
    lastEpochNetworkTime := c.packageCoreIndices.map fun indices => indices.map s.networkTime
    lastEpochMaxFrequency := a.currentEpochMaxFrequency
    currentEpochMaxFrequency := a.lastEpochMaxFrequency.map fun _ => some c.frequencyMin
    lastEpochTime := s.time
    lastEpochCount := s.epochCount
    epochWaitCount := 3
    handleNewEpoch := true }

/-- `sample_platform`.  The differences are taken at the control indices of the packages, which all
have to be in range. -/
def samplePlatform (a : Agent) (s : Samples) : Option Agent :=
  let a := countHints c a s
  let countedEpochs := s.epochCount.sub a.lastEpochCount
  if s.epochCount ≠ none ∧ a.lastEpochCount ≠ none ∧
      Value.le (some a.epochWaitCount) countedEpochs then
    if Value.lt (s.time.sub a.lastEpochTime) (some (5 * c.waiterPeriod)) then
      some { a with epochWaitCount := a.epochWaitCount + 1 }
    else if c.packageCoreIndices.all fun indices =>
        indices.all fun ctl => decide (ctl < c.controlCount) then
      some (evaluateEpochs c a s countedEpochs)
    else none
  else if a.lastEpochCount = none then some { a with lastEpochCount := s.epochCount }
  else some a

/-! ### `adjust_platform` -/

/-- The switches of a policy. -/
structure Policy where
  useFrequencyLimits : Value
  useSstTf : Value

/-- What a call asks for: the frequency of each control at the moment, and the request that the
frequency governor gets, if it is used. -/
structure Adjustment where
  immediate : List Value
  frequencyRequest : Option (List Value)

def initializePolicies (a : Agent) (policy : Policy) : Option (Agent × Adjustment) := do
  let useSstTf := decide (policy.useSstTf ≠ some 0)
  let governor ← a.sstClosGovernor.adjustPlatform c.controlCount a.lastCtlClos
  some ({ a with
    isAdjustInitialized := true
    policyUseFrequencyLimits := decide (policy.useFrequencyLimits ≠ some 0)
    useSstTf := useSstTf
    sstClosGovernor := { governor with isEnabled := useSstTf } },
    ⟨a.lastCtlFrequency, some a.lastCtlFrequency⟩)

/-- The limits of the core of a package from which the greatest frequency is expected, with that
frequency and the low priority frequency of the core. -/
structure Achievable where
  maxAchievableFrequency : Value
  coreFrequencyLimits : Limits
  lowPriorityFrequency : Value

/-- A core's limits are considered. -/
def considerCore (d : SSTFrequencyLimitDetector) (s : Achievable) (ctlIdx : ℕ) :
    Option Achievable := do
  let limits ← d.coreFrequencyLimits[ctlIdx]?
  limits.foldlM (fun s limit =>
    if limit.2.gt s.maxAchievableFrequency then do
      let lpFrequency ← d.coreLpFrequencies[ctlIdx]?
      some ⟨limit.2, limits, some lpFrequency⟩
    else some s) s

/-- `balance_frequencies_by_time` on vectors, which are of one size and not empty. -/
def balanceVectors (previousTimes control achieved : List Value) (limits : Limits)
    (lowPriorityFrequency : Value) (b : FrequencyTimeBalancer) :
    Option (List Value × FrequencyTimeBalancer) :=
  if previousTimes.length = control.length ∧ achieved.length = control.length ∧ control ≠ [] then
    let times := fun i : Fin control.length => previousTimes.getD i none
    let achieved := fun i : Fin control.length => achieved.getD i none
    let lagginessIdx := c.sortCores _ times achieved
    some (List.ofFn (b.balanceFrequenciesByTime times control.get achieved limits
        lowPriorityFrequency lagginessIdx),
      b.updateBalanceTargets times control.get achieved limits lowPriorityFrequency lagginessIdx)
  else none

/-- What the balancer of a package computes for the controls. -/
def balancedFrequencies (a : Agent) (packageIdx : ℕ) (controls : List ℕ) :
    Option (List Value × FrequencyTimeBalancer) := do
  let pkgCtlFrequency ← controls.mapM fun ctlIdx => a.lastCtlFrequency[ctlIdx]?
  let s ← controls.foldlM (considerCore a.frequencyLimitDetector)
    ⟨some 0, [], some c.frequencyMin⟩
  let times ← a.lastEpochNonNetworkTimeDiff[packageIdx]?
  let frequencies ← a.lastEpochFrequency[packageIdx]?
  let balancer ← a.packageBalancers[packageIdx]?
  balanceVectors c times pkgCtlFrequency frequencies s.coreFrequencyLimits s.lowPriorityFrequency
    balancer

/-- The multiple of the step that is next to the frequency in the direction of the previous one. -/
def roundTowardPrevious (previous frequency : Value) : Value :=
  if previous.gt frequency then frequency.map fun x => ⌈x / c.frequencyStep⌉ * c.frequencyStep
  else frequency.map fun x => ⌊x / c.frequencyStep⌋ * c.frequencyStep

/-- One turn of the loop that rounds what a balancer has computed. -/
def roundControl (s : List Value × List Value) (control : ℕ × ℕ) :
    Option (List Value × List Value) := do
  let (lastCtlFrequency, frequencyByCore) := s
  let (ctlIdx, pkgNestedCtlIdx) := control
  let previous ← lastCtlFrequency[ctlIdx]?
  let frequency ← frequencyByCore[pkgNestedCtlIdx]?
  let rounded := roundTowardPrevious c previous frequency
  let frequencyByCore ← put frequencyByCore pkgNestedCtlIdx rounded
  let lastCtlFrequency ← put lastCtlFrequency ctlIdx rounded
  some (lastCtlFrequency, frequencyByCore)

/-- One turn of the loop over the packages; the second result is `frequency_by_core`. -/
def balancePackage (s : Agent × List Value) (packageIdx : ℕ) : Option (Agent × List Value) := do
  let a := s.1
  let indices ← c.packageCoreIndices[packageIdx]?
  let (frequencyByCore, balancer) ← balancedFrequencies c a packageIdx indices
  let (lastCtlFrequency, frequencyByCore) ←
    indices.zipIdx.foldlM (roundControl c) (a.lastCtlFrequency, frequencyByCore)
  some ({ a with
    lastCtlFrequency := lastCtlFrequency
    packageBalancers := a.packageBalancers.set packageIdx balancer }, frequencyByCore)

/-- The loop over the packages, when there are new epochs to handle. -/
def balancePackages (a : Agent) (samples : LimitSamples) : Option (Agent × List Value) := do
  let detector ← a.frequencyLimitDetector.updateMaxFrequencyEstimates c a.lastEpochMaxFrequency
    samples
  let a := { a with handleNewEpoch := false, frequencyLimitDetector := detector }
  (List.range c.topo.numPackage).foldlM (balancePackage c) (a, a.lastCtlFrequency)

/-- The part of `adjust_platform` that handles new epochs; the second result is
`frequency_by_core`. -/
def handleEpochs (a : Agent) (samples : LimitSamples) : Option (Agent × List Value) :=
  if a.handleNewEpoch then balancePackages c a samples else some (a, a.lastCtlFrequency)

/-- One turn of the loop that finds the cores which wait; the second result counts those of high
priority which do not. -/
def lowerWaiting (a : Agent) (s : List Value × ℕ) (ctlIdx : ℕ) : Option (List Value × ℕ) := do
  let (immediate, hpNotWaitingCount) := s
  let hash ← a.lastHash[ctlIdx]?
  let networkLength ← a.networkHintSampleLength[ctlIdx]?
  -- in neither case is the core in an application region that computes
  if !isApplication hash || decide (3 ≤ networkLength) then
    let lpFrequency ← a.frequencyLimitDetector.coreLpFrequencies[ctlIdx]?
    let immediate ← put immediate ctlIdx (some lpFrequency)
    some (immediate, hpNotWaitingCount)
  else
    let frequency ← immediate[ctlIdx]?
    some (immediate,
      if Value.le (some c.frequencyMax) frequency then hpNotWaitingCount + 1 else hpNotWaitingCount)

/-- One turn of the loop that raises the cores which do not wait. -/
def raiseNotWaiting (a : Agent) (immediate : List Value) (ctlIdx : ℕ) : Option (List Value) := do
  let nonNetworkLength ← a.nonNetworkHintSampleLength[ctlIdx]?
  if 1 ≤ nonNetworkLength then put immediate ctlIdx (some c.frequencyMax) else some immediate

/-- The immediate controls of a package. -/
def immediatePackage (a : Agent) (immediate : List Value) (packageIdx : ℕ) :
    Option (List Value) := do
  let indices ← c.packageCoreIndices[packageIdx]?
  let (immediate, hpNotWaitingCount) ← indices.foldlM (lowerWaiting c a) (immediate, 0)
  if hpNotWaitingCount = 0 then indices.foldlM (raiseNotWaiting c a) immediate else some immediate

/-- The immediate controls. -/
def immediateControls (a : Agent) : Option (List Value) :=
  (List.range c.topo.numPackage).foldlM (immediatePackage c a) a.lastCtlFrequency

/-- One turn of the loop that assigns the classes. -/
def assignClos (a : Agent) (immediate : List Value) (closByCore : List ClosLevel) (ctlIdx : ℕ) :
    Option (List ClosLevel) := do
  let frequency ← immediate[ctlIdx]?
  let lpFrequency ← a.frequencyLimitDetector.coreLpFrequencies[ctlIdx]?
  put closByCore ctlIdx
    (if frequency.gt (some lpFrequency) then .highPriority else .lowPriority)

/-- The classes are assigned to the cores, as many as `frequency_by_core` has elements, when
prioritized turbo is in use. -/
def assignClasses (a : Agent) (immediate frequencyByCore : List Value) : Option SSTClosGovernor :=
  if a.useSstTf then
    ((List.range frequencyByCore.length).foldlM (assignClos a immediate) a.lastCtlClos).bind
      (a.sstClosGovernor.adjustPlatform c.controlCount)
  else some a.sstClosGovernor

/-- The request of the frequency governor, if it is used; it has to be of the size of its domain. -/
def requestFrequency (a : Agent) (immediate : List Value) : Option (Option (List Value)) :=
  if a.policyUseFrequencyLimits then
    if immediate.length ≠ c.controlCount then none else some (some immediate)
  else some none

def adjustPlatform (a : Agent) (policy : Policy) (samples : LimitSamples) :
    Option (Agent × Adjustment) :=
  if ¬ a.isAdjustInitialized then initializePolicies c a policy
  else do
    let (a, frequencyByCore) ← handleEpochs c a samples
    let immediate ← immediateControls c a
    let governor ← assignClasses c a immediate frequencyByCore
    let frequencyRequest ← requestFrequency c a immediate
    some ({ a with sstClosGovernor := governor }, ⟨immediate, frequencyRequest⟩)

/-! ### The calls of a controller -/

/-- The calls of a controller, with what the platform has for them. -/
inductive Call where
  | sample (samples : Samples)
  | adjust (policy : Policy) (samples : LimitSamples)

/-- The agent after a call.  Nothing is said of an agent after a call that has not returned. -/
def next (a : Agent) : Call → Agent
  | .sample samples => (samplePlatform c a samples).getD a
  | .adjust policy samples => ((adjustPlatform c a policy samples).map Prod.fst).getD a

end Methods

end Geopm.FrequencyBalancerAgent
