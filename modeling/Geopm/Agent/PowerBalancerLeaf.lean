import Geopm.Agent.PowerBalancer

/-!
# The leaf role of the power balancer agent

`PowerBalancerAgent::LeafRole` steps through three steps again and again: it sends down a limit for
each package, it measures the runtimes of the packages, and it reduces their limits until the
slowest package of all the nodes is met.

* `LeafRole` : the members, for a node with a number of packages; `Package` : `m_package_s`, with
  the balancer of the package;
* `LeafRole.adjustPlatform`, `LeafRole.samplePlatform` : what the controller calls; `enterStep`,
  `sampleStep`, `updatePolicy` : what they call for the current step;
* `forPackages_ok`, `forPackages_eq_ok` : a loop over the packages changes each of them as its body
  does.
-/

namespace Geopm

open Pio (Value)
open Prog
open List hiding get modify set

/-! ### The members -/

namespace PowerBalancerAgent

/-- The policy. -/
structure Policy where
  cpuPowerLimit : Value := none
  stepCount : Value := none
  maxEpochRuntime : Value := none
  powerSlack : Value := none

/-- The sample. -/
structure Sample where
  stepCount : Value
  maxEpochRuntime : Value
  sumPowerSlack : Value
  minPowerHeadroom : Value

/-- The steps. -/
inductive Step where
  | sendDownLimit | measureRuntime | reduceLimit
deriving DecidableEq, Repr

/-- `Role::step`: the count is converted to a `size_t`. -/
def step (stepCount : ℤ) : Step :=
  if stepCount % 2 ^ 64 % 3 = 0 then .sendDownLimit
  else if stepCount % 2 ^ 64 % 3 = 1 then .measureRuntime
  else .reduceLimit

/-- `m_package_s`, with the balancer of the package.  The limit that has been written to the
platform last is `actualLimit`. -/
structure Package where
  lastEpochCount : ℤ := 0
  runtime : Value := some 0
  actualLimit : Value := none
  powerSlack : Value := some 0
  powerHeadroom : Value := some 0
  isOutOfBounds : Bool := false
  isStepComplete : Bool := true
  balancer : PowerBalancer

/-- The signals of a package, and the time at which its balancer is called. -/
structure Reading where
  epochCount : ℤ
  total : Value
  network : Value
  ignore : Value
  now : ℚ

/-- The members of `LeafRole`, for a node with `numDomain` packages.  There is one: the agent reads
the range of the limits from the package 0. -/
structure LeafRole (numDomain : ℕ) where
  numDomain_pos : 0 < numDomain
  numNode : ℕ
  policy : Policy := {}
  stepCount : ℤ := -1
  packages : Fin numDomain → Package
  minPkgPowerSetting : ℚ
  maxPkgPowerSetting : ℚ
  isSingleNode : Bool
  isFirstPolicy : Bool := true

variable {numDomain : ℕ}

namespace LeafRole

/-- The constructor.  A package is stable after three time windows. -/
def make (numDomain_pos : 0 < numDomain) (numNode : ℕ) (timeWindow minPower maxPower : ℚ)
    (isSingleNode : Bool) : LeafRole numDomain where
  numDomain_pos := numDomain_pos
  numNode := numNode
  packages := fun _ => { balancer := { controlLatency := 3 * timeWindow } }
  minPkgPowerSetting := minPower
  maxPkgPowerSetting := maxPower
  isSingleNode := isSingleNode

/-- The packages in order. -/
def indices (_ : LeafRole numDomain) : List (Fin numDomain) := List.finRange numDomain

/-- The package `i` is replaced. -/
def setPackage (i : Fin numDomain) (p : Package) (s : LeafRole numDomain) : LeafRole numDomain :=
  { s with packages := Function.update s.packages i p }

/-- `are_steps_complete(is_complete)`. -/
def setStepsComplete (isComplete : Bool) (s : LeafRole numDomain) : LeafRole numDomain :=
  { s with packages := fun i => { s.packages i with isStepComplete := isComplete } }

/-- `are_steps_complete()`. -/
def areStepsComplete (s : LeafRole numDomain) : Bool :=
  s.indices.all fun i => (s.packages i).isStepComplete

/-- The step of the step count. -/
def currentStep (s : LeafRole numDomain) : Step := step s.stepCount

end LeafRole

open LeafRole

/-- A loop over the packages. -/
def forPackages {α : Type} (body : Fin numDomain → EStateM Exception Package α) :
    EStateM Exception (LeafRole numDomain) (List α) :=
  (List.finRange numDomain).mapM fun i => zoom (fun s => s.packages i) (setPackage i) (body i)

/-- A call of the balancer. -/
def onBalancer {α : Type} (call : EStateM Exception PowerBalancer α) :
    EStateM Exception Package α :=
  zoom Package.balancer (fun b p => { p with balancer := b }) call

/-! ### The steps -/

/-- The headroom of a package with `even` more watts. -/
def headroom (s : LeafRole numDomain) (even : Value) (i : Fin numDomain) : Value :=
  Value.sub (some s.maxPkgPowerSetting) ((s.packages i).balancer.powerLimit.add even)

/-- The least headroom of a package at the current limits. -/
def minHeadroom (s : LeafRole numDomain) : Value :=
  s.indices.foldl (fun result i => result.min
    (Value.sub (some s.maxPkgPowerSetting) (s.packages i).balancer.powerLimit)) Value.largest

/-- The even share, and the slack that is left for the proportional ones. -/
def evenSlack (s : LeafRole numDomain) (slackPower : Value) : Except Exception (Value × Value) := do
  let evenSlack ← slackPower.div (some (numDomain : ℚ))
  if evenSlack.lt (minHeadroom s) then pure (evenSlack, some 0)
  else pure (minHeadroom s, slackPower.sub ((minHeadroom s).mul (some (numDomain : ℚ))))

/-- The headroom that is left at the even share. -/
def totalHeadroom (s : LeafRole numDomain) (even : Value) : Value :=
  s.indices.foldl (fun result i => Value.add result (headroom s even i)) (some 0)

/-- The part of the slack that a package with the headroom `headroom` receives. -/
def factor (headroom total : Value) : Except Exception Value :=
  if total.ne (some 0) then headroom.div total else pure (some 1)

/-- The cap of a package with the limit `limit`. -/
def shareCap (limit headroom total even slackPower : Value) : Except Exception Value := do
  let factor ← factor headroom total
  pure ((limit.add even).add (factor.mul slackPower))

/-- `SendDownLimitStep::enter_step`. -/
def enterSendDownLimit (policy : Policy) : EStateM Exception (LeafRole numDomain) Unit := do
  let s ← get
  let (even, slackPower) ← ret (evenSlack s policy.powerSlack)
  let _ ← forPackages fun i => do
    let p ← get
    let cap ← ret
      (shareCap p.balancer.powerLimit (headroom s even i) (totalHeadroom s even) even slackPower)
    set { p with balancer := p.balancer.setPowerCap cap }
  modify (setStepsComplete true)

/-- `ReduceLimitStep::enter_step`. -/
def enterReduceLimit (policy : Policy) : EStateM Exception (LeafRole numDomain) Unit :=
  modify fun s => { s with packages := fun i => { s.packages i with
    balancer := (s.packages i).balancer.setTargetRuntime policy.maxEpochRuntime } }

/-- `enter_step` of the current step. -/
def enterStep (policy : Policy) : EStateM Exception (LeafRole numDomain) Unit := do
  let s ← get
  match s.currentStep with
  | .sendDownLimit => enterSendDownLimit policy
  | .measureRuntime => pure ()
  | .reduceLimit => enterReduceLimit policy

/-- `update_policy` of the current step. -/
def updatePolicy (sample : Sample) : EStateM Exception (LeafRole numDomain) Unit := do
  let s ← get
  match s.currentStep with
  | .sendDownLimit => set { s with policy := { s.policy with cpuPowerLimit := some 0 } }
  | .measureRuntime =>
    set { s with policy := { s.policy with maxEpochRuntime := sample.maxEpochRuntime } }
  | .reduceLimit => do
    let slack ← ret (sample.sumPowerSlack.div (some (s.numNode : ℚ)))
    set { s with policy := { s.policy with powerSlack := slack.min sample.minPowerHeadroom } }

/-- The package has a new epoch, and its step is not complete. -/
def Package.isActive (p : Package) (reading : Reading) : Bool :=
  decide (1 < reading.epochCount) && decide (reading.epochCount ≠ p.lastEpochCount) &&
    !p.isStepComplete

/-- The runtime that is a function of node local optimizations only. -/
def Reading.balancedEpochRuntime (reading : Reading) : Value :=
  (reading.total.sub reading.network).sub reading.ignore

/-- What is done with a package that is active; the epoch is remembered in any case. -/
def whenActive (reading : Reading) (update : EStateM Exception Package Unit) :
    EStateM Exception Package Unit := do
  let p ← get
  (if p.isActive reading then update else pure ())
  modify fun p => { p with lastEpochCount := reading.epochCount }

/-- The runtime is recorded when it is not stable yet. -/
def recordRuntime (stable : Bool) (p : Package) : Package :=
  if stable then { p with isStepComplete := true }
  else { p with isStepComplete := false, runtime := p.balancer.runtimeSample }

/-- `MeasureRuntimeStep::sample_platform`, for one package. -/
def measureRuntime (reading : Reading) : EStateM Exception Package Unit :=
  whenActive reading do
    let stable ← onBalancer (PowerBalancer.isRuntimeStable reading.now reading.balancedEpochRuntime)
    modify (recordRuntime stable)

/-- The target is met, or there is no limit to be lowered. -/
def isPackageMet (reading : Reading) : EStateM Exception Package Bool := do
  let p ← get
  if p.isOutOfBounds then pure true
  else onBalancer (PowerBalancer.isTargetMet reading.now reading.balancedEpochRuntime)

/-- `ReduceLimitStep::sample_platform`, for one package. -/
def reduceLimit (maxPkgPowerSetting : ℚ) (reading : Reading) : EStateM Exception Package Unit :=
  whenActive reading do
    let met ← isPackageMet reading
    let slack ← onBalancer PowerBalancer.powerSlack
    modify fun p => { p with
      isStepComplete := met
      powerSlack := slack
      isOutOfBounds := false
      powerHeadroom := Value.sub (some maxPkgPowerSetting) p.balancer.powerLimit }

/-- `sample_platform` of the current step. -/
def sampleStep (readings : Fin numDomain → Reading) :
    EStateM Exception (LeafRole numDomain) Unit := do
  let s ← get
  match s.currentStep with
  | .sendDownLimit => pure ()
  | .measureRuntime => do
    let _ ← forPackages fun i => measureRuntime (readings i)
    pure ()
  | .reduceLimit => do
    let _ ← forPackages fun i => reduceLimit s.maxPkgPowerSetting (readings i)
    pure ()

/-! ### The calls of the controller -/

/-- The policy that the leaf works on: the one that is received or, on a single node, the one that
the leaf makes of its own samples. -/
def receivePolicy (inPolicy : Policy) : EStateM Exception (LeafRole numDomain) Unit := do
  let s ← get
  if s.isSingleNode then
    if s.isFirstPolicy then set { s with policy := inPolicy, isFirstPolicy := false }
    else if s.areStepsComplete then do
      updatePolicy
        { stepCount := s.policy.stepCount
          maxEpochRuntime := s.policy.maxEpochRuntime
          sumPowerSlack := s.policy.powerSlack
          minPowerHeadroom := s.policy.powerSlack }
      modify fun s =>
        { s with policy := { s.policy with stepCount := s.policy.stepCount.add (some 1) } }
    else pure ()
  else set { s with policy := inPolicy }

/-- A new power cap from the resource manager resets the algorithm. -/
def resetLimit : EStateM Exception (LeafRole numDomain) Unit := do
  let s ← get
  let pkgLimit ← ret (s.policy.cpuPowerLimit.div (some (numDomain : ℚ)))
  set { s with
    stepCount := 0
    packages := fun i => { s.packages i with
      balancer := (s.packages i).balancer.setPowerCap pkgLimit
      isStepComplete := true } }

/-- The next step is entered. -/
def advanceStep : EStateM Exception (LeafRole numDomain) Unit := do
  modify fun s => setStepsComplete false { s with stepCount := s.stepCount + 1 }
  let s ← get
  if s.policy.stepCount.ne (some (s.stepCount : ℚ)) then
    throw
      { what := "PowerBalancerAgent::adjust_platform(): The policy step is out of sync with the " ++
          "agent step or first policy received had a zero power cap."
        err := .runtime }
  else enterStep s.policy

/-- A limit is written to the platform, when it is another one. -/
def setLimit (now : ℚ) (limit : Value) : EStateM Exception Package Bool := do
  let p ← get
  if limit.ne p.actualLimit then do
    set { p with balancer := p.balancer.powerLimitAdjusted now limit, actualLimit := limit }
    pure true
  else pure false

/-- The limit that the balancer requests is written to the platform, at the time `now`. -/
def writeLimit (minPkgPowerSetting : ℚ) (now : ℚ) : EStateM Exception Package Bool := do
  let p ← get
  let requestLimit := p.balancer.powerLimit
  if requestLimit ≠ none ∧ requestLimit ≠ some 0 then
    if requestLimit.lt (some minPkgPowerSetting) then do
      modify fun p => { p with isOutOfBounds := true }
      setLimit now (some minPkgPowerSetting)
    else setLimit now requestLimit
  else pure false

/-- The policy is put into effect. -/
def applyPolicy : EStateM Exception (LeafRole numDomain) Unit := do
  let s ← get
  if s.policy.cpuPowerLimit.ne (some 0) then resetLimit
  else if s.policy.stepCount.ne (some (s.stepCount : ℚ)) then advanceStep
  else pure ()

/-- `adjust_platform`, at the times `now`. -/
def adjustPlatform (inPolicy : Policy) (now : Fin numDomain → ℚ) :
    EStateM Exception (LeafRole numDomain) Bool := do
  receivePolicy inPolicy
  applyPolicy
  let s ← get
  let written ← forPackages fun i => writeLimit s.minPkgPowerSetting (now i)
  pure (written.any id)

/-- The sample of the packages. -/
def makeSample (s : LeafRole numDomain) : Sample where
  stepCount := some s.stepCount
  maxEpochRuntime := s.indices.foldl (fun result i => result.max (s.packages i).runtime) (some 0)
  sumPowerSlack := s.indices.foldl (fun result i => result.add (s.packages i).powerSlack) (some 0)
  minPowerHeadroom :=
    s.indices.foldl (fun result i => result.add (s.packages i).powerHeadroom) (some 0)

/-- A single node uses its own sample as the policy of the next step. -/
def keepSample (s : LeafRole numDomain) : LeafRole numDomain :=
  if s.isSingleNode && s.areStepsComplete then
    { s with policy := { s.policy with
      maxEpochRuntime := (makeSample s).maxEpochRuntime
      powerSlack := (makeSample s).sumPowerSlack.min (makeSample s).minPowerHeadroom } }
  else s

/-- `sample_platform`: the sample, and whether it is sent. -/
def samplePlatform (readings : Fin numDomain → Reading) :
    EStateM Exception (LeafRole numDomain) (Sample × Bool) := do
  sampleStep readings
  let s ← get
  modify keepSample
  pure (makeSample s, s.areStepsComplete)

/-! ### Loops over the packages -/

section Loops

variable {α : Type} {s : LeafRole numDomain} {body : Fin numDomain → EStateM Exception Package α}
  {result : Fin numDomain → α} {after : Fin numDomain → Package}

/-- The packages of a list are changed as the body changes them. -/
theorem mapM_packages {is : List (Fin numDomain)} (hnodup : is.Nodup)
    (h : ∀ i ∈ is, body i (s.packages i) = .ok (result i) (after i)) :
    is.mapM (fun i => zoom (fun s : LeafRole numDomain => s.packages i) (setPackage i) (body i)) s =
      .ok (is.map result)
        { s with packages := fun i => if i ∈ is then after i else s.packages i } := by
  induction is generalizing s with
  | nil => simp; rfl
  | cons i is ih =>
    obtain ⟨hnot, hnodup⟩ := nodup_cons.mp hnodup
    have hbody := h i mem_cons_self
    have hzoom : zoom (fun s : LeafRole numDomain => s.packages i) (setPackage i) (body i) s =
        .ok (result i) (setPackage i (after i) s) := by
      unfold zoom
      rw [hbody]
    have hrest : ∀ j ∈ is, body j ((setPackage i (after i) s).packages j) =
        .ok (result j) (after j) := by
      intro j hj
      have hne : j ≠ i := fun hji => hnot (hji ▸ hj)
      show body j (Function.update s.packages i (after i) j) = _
      rw [Function.update_of_ne hne]
      exact h j (mem_cons_of_mem _ hj)
    rw [mapM_cons, bind_of_ok hzoom, bind_of_ok (ih hnodup hrest)]
    show EStateM.Result.ok _ _ = _
    congr 1
    unfold setPackage
    dsimp only
    congr 1
    funext j
    by_cases hj : j = i
    · subst hj
      simp [hnot]
    · simp [hj]

/-- **A loop over the packages** changes each of them as its body does. -/
theorem forPackages_ok (result : Fin numDomain → α)
    (h : ∀ i, body i (s.packages i) = .ok (result i) (after i)) :
    forPackages body s =
      .ok ((List.finRange numDomain).map result) { s with packages := after } := by
  unfold forPackages
  rw [mapM_packages (nodup_finRange _) fun i _ => h i]
  simp

theorem mapM_packages_eq_ok {is : List (Fin numDomain)} (hnodup : is.Nodup) {results : List α}
    {s' : LeafRole numDomain}
    (h : is.mapM (fun i => zoom (fun s : LeafRole numDomain => s.packages i) (setPackage i) (body i))
      s = .ok results s') :
    s' = { s with packages := s'.packages } ∧
      (∀ i ∈ is, ∃ a, body i (s.packages i) = .ok a (s'.packages i)) ∧
      ∀ i ∉ is, s'.packages i = s.packages i := by
  induction is generalizing s results with
  | nil =>
    rw [mapM_nil] at h
    cases h
    exact ⟨rfl, fun i hi => absurd hi not_mem_nil, fun _ _ => rfl⟩
  | cons i is ih =>
    obtain ⟨hnot, hnodup⟩ := nodup_cons.mp hnodup
    rw [mapM_cons] at h
    obtain ⟨a, t, hzoom, h⟩ := exists_of_bind_eq_ok h
    obtain ⟨as, t', hrest, hpure⟩ := exists_of_bind_eq_ok h
    cases hpure
    obtain ⟨p, hbody, rfl⟩ := zoom_eq_ok hzoom
    obtain ⟨hframe, hin, hout⟩ := ih hnodup hrest
    refine ⟨hframe, fun j hj => ?_, fun j hj => ?_⟩
    · obtain rfl | hj := mem_cons.mp hj
      · refine ⟨a, ?_⟩
        rw [hout j hnot]
        show body j (s.packages j) = .ok a (Function.update s.packages j p j)
        rw [Function.update_self, hbody]
      · have hne : j ≠ i := fun hji => hnot (hji ▸ hj)
        obtain ⟨b, hb⟩ := hin j hj
        refine ⟨b, ?_⟩
        rw [← hb]
        show _ = body j (Function.update s.packages i p j)
        rw [Function.update_of_ne hne]
    · rw [mem_cons, not_or] at hj
      rw [hout j hj.2]
      show Function.update s.packages i p j = _
      rw [Function.update_of_ne hj.1]

theorem forPackages_eq_ok {results : List α} {s' : LeafRole numDomain}
    (h : forPackages body s = .ok results s') :
    s' = { s with packages := s'.packages } ∧
      ∀ i, ∃ a, body i (s.packages i) = .ok a (s'.packages i) := by
  obtain ⟨hframe, hin, -⟩ := mapM_packages_eq_ok (nodup_finRange _) h
  exact ⟨hframe, fun i => hin i (mem_finRange i)⟩

end Loops

end PowerBalancerAgent

end Geopm
