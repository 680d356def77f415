import Geopm.Double
import Geopm.Exception
import Geopm.Lib.Fallible
import Geopm.Lib.LastOf
import Geopm.Lib.SortedMap

/-!
# The agent that follows a map from regions to frequencies

The leaf agent reads the region of each frequency domain and sets the frequency that the policy maps
it to.  It remembers what it has set last and adjusts only what differs.

* `Policy`, `Agent`, `PlatformIO` : a policy, the members of the agent, and the batch of controls;
* `validatePolicy`, `updatePolicy`, `adjustPlatform`, `samplePlatform` : the methods;
* `Tracks` : what the agent remembers is what a batch writes;
* `InForce` : the controls are as the policy says;
* `walkDown_inForce` : they are after each walk down, in every run;
* `gpu_stays` : the GPUs keep their frequency when a later policy has none.
-/

namespace Geopm.FrequencyMapAgent

open List
open Except (exists_of_bind_eq_ok)
open Double

/-! ### Policies -/

/-- The vector of a policy: three frequencies, then pairs of a region and its frequency. -/
structure Policy where
  freqCpuDefault : Double
  freqCpuUncore : Double
  freqGpuDefault : Double
  regions : List (Double × Double)

/-- `is_all_nan` of the vector. -/
def Policy.isAllNan (policy : Policy) : Bool :=
  policy.freqCpuDefault.isNan && policy.freqCpuUncore.isNan && policy.freqGpuDefault.isNan &&
    policy.regions.all fun r => r.1.isNan && r.2.isNan

/-- What `init_platform_io` reads from the platform, and the value that a number outside of the
range of a `uint64_t` is cast to. -/
structure Platform where
  numFreqCtlDomain : ℕ
  coreFreqMin : Double
  coreFreqMax : Double
  uncoreInitMin : Double
  uncoreInitMax : Double
  doGpuCtl : Bool
  gpuInitFreqMin : Double
  gpuInitFreqMax : Double
  castOutOfRange : Double → BitVec 64

section Methods

variable (p : Platform)

/-- `static_cast<uint64_t>(x)`. -/
def Platform.toUint64 : Double → BitVec 64
  | .num x =>
    if -1 < x ∧ x < 2 ^ 64 then BitVec.ofNat 64 ⌊x⌋.toNat else p.castOutOfRange (.num x)
  | .negZero => 0#64
  | x => p.castOutOfRange x

/-- The pairs in `validate_policy`, with the regions of those before. -/
def checkRegions (policyRegions : List (BitVec 64)) :
    List (Double × Double) → Except Exception Unit
  | [] => .ok ⟨⟩
  | (hash, mappedFreq) :: regions =>
    if hash.isNan then
      if mappedFreq.isNan then checkRegions policyRegions regions
      else .error ⟨"FrequencyMapAgent policy maps a NaN region with frequency: %", [], .invalid⟩
    else if mappedFreq.isNan then
      .error ⟨"FrequencyMapAgent::validate_policy(): mapped region with no frequency assigned.",
        [], .invalid⟩
    else if p.toUint64 hash ∈ policyRegions then
      .error ⟨"FrequencyMapAgent policy has multiple entries for region: %",
        [(p.toUint64 hash).toNat], .invalid⟩
    else checkRegions (p.toUint64 hash :: policyRegions) regions

/-- The frequency of the GPUs in `validate_policy`. -/
def checkGpu (freqGpuDefault : Double) : Except Exception Unit :=
  if freqGpuDefault.isNan then .ok ⟨⟩
  else if !p.doGpuCtl then
    .error ⟨"FrequencyMapAgent::validate_policy(): default GPU frequency specified on a system " ++
      "with no GPUs.", [], .invalid⟩
  else if p.gpuInitFreqMax.lt freqGpuDefault || freqGpuDefault.lt p.gpuInitFreqMin then
    .error ⟨"FrequencyMapAgent::validate_policy(): default GPU frequency  is out of range. (",
      [], .invalid⟩
  else .ok ⟨⟩

def validatePolicy (policy : Policy) : Except Exception Unit :=
  -- such a policy may be received before the first one
  if policy.isAllNan then .ok ⟨⟩
  else if policy.freqCpuDefault.isNan then
    .error ⟨"FrequencyMapAgent::validate_policy(): default CPU frequency must be provided in " ++
      "policy.", [], .invalid⟩
  else if p.coreFreqMax.lt policy.freqCpuDefault || policy.freqCpuDefault.lt p.coreFreqMin then
    .error ⟨"FrequencyMapAgent::validate_policy(): default CPU frequency out of range: %.",
      [], .invalid⟩
  else do
    checkGpu p policy.freqGpuDefault
    checkRegions p [] policy.regions

/-! ### The agent -/

/-- `GEOPM_REGION_HASH_UNMARKED`. -/
def regionHashUnmarked : BitVec 64 := 0x725e8066#64

/-- The members of `FrequencyMapAgent` that its methods change. -/
structure Agent where
  lastHash : ℕ → BitVec 64 := fun _ => regionHashUnmarked
  lastFreq : ℕ → Double := fun _ => .nan
  lastUncoreFreq : Double := .nan
  lastGpuFreq : Double := .nan
  isPolicyUpdated : Bool := false
  doWriteBatch : Bool := false
  isAdjustInitialized : Bool := false
  isRealPolicy : Bool := false
  defaultFreq : Double := .nan
  uncoreFreq : Double := .nan
  defaultGpuFreq : Double := .nan
  hashFreqMap : List (BitVec 64 × Double) := []
  defaultFreqHash : List (BitVec 64) := []

/-- The map of the pairs that have a region. -/
def hashFreqMapOf (regions : List (Double × Double)) : List (BitVec 64 × Double) :=
  regions.foldl
    (fun map r => if r.1.isNan then map else SortedMap.assign (p.toUint64 r.1) r.2 map) []

/-- The `==` of maps. -/
def eqMap : List (BitVec 64 × Double) → List (BitVec 64 × Double) → Bool
  | [], [] => true
  | a :: as, b :: bs => a.1 == b.1 && a.2.eq b.2 && eqMap as bs
  | _, _ => false

def updatePolicy (policy : Policy) (agent : Agent) : Except Exception Agent :=
  if policy.isAllNan then
    if !agent.isRealPolicy then .ok { agent with isPolicyUpdated := false }
    else
      .error ⟨"FrequencyMapAgent::update_policy(): received invalid all-NAN policy.", [], .invalid⟩
  else
    let hashFreqMap := hashFreqMapOf p policy.regions
    .ok
      { agent with
        isRealPolicy := true
        hashFreqMap := hashFreqMap
        isPolicyUpdated := !agent.defaultFreq.eq policy.freqCpuDefault ||
          !eqMap hashFreqMap agent.hashFreqMap ||
          (!policy.freqCpuUncore.isNan && !agent.uncoreFreq.eq policy.freqCpuUncore) ||
          (!policy.freqGpuDefault.isNan && !agent.defaultGpuFreq.eq policy.freqGpuDefault)
        defaultFreq :=
          if !agent.defaultFreq.eq policy.freqCpuDefault then policy.freqCpuDefault
          else agent.defaultFreq
        uncoreFreq := policy.freqCpuUncore
        defaultGpuFreq := policy.freqGpuDefault }

/-! ### The batch of controls -/

/-- The controls that `init_platform_io` pushes. -/
inductive Control where
  | freq (ctlIdx : ℕ)
  | uncoreMin
  | uncoreMax
  | gpuMin
  | gpuMax
deriving DecidableEq

/-- The controls: what has been adjusted, and what is set. -/
structure PlatformIO where
  adjusted : Control → Option Double := fun _ => none
  settings : Control → Double

def PlatformIO.writeBatch (pio : PlatformIO) : PlatformIO :=
  { pio with settings := fun c => (pio.adjusted c).getD (pio.settings c) }

/-- The agent and the controls. -/
structure Machine where
  agent : Agent := {}
  pio : PlatformIO

/-- `PlatformIO::adjust`. -/
def Machine.adjust (c : Control) (setting : Double) (m : Machine) : Except Exception Machine :=
  if setting.isNan then .error ⟨"PlatformIOImp::adjust(): setting is NAN", [], .invalid⟩
  else .ok { m with pio.adjusted := Function.update m.pio.adjusted c (some setting) }

/-! ### Adjusting the platform -/

/-- The GPUs in the first call of `adjust_platform`. -/
def adjustGpuFirst (m : Machine) : Except Exception Machine :=
  if p.doGpuCtl then do
    let m ← m.adjust .gpuMin p.gpuInitFreqMax
    m.adjust .gpuMax p.gpuInitFreqMax
  else .ok m

/-- Adjust all controls once.  The arguments are the values of `CPU_FREQUENCY_MAX_CONTROL`. -/
def adjustFirst (maxControl : ℕ → Except Exception Double) (m : Machine) :
    Except Exception Machine :=
  if !m.agent.isAdjustInitialized then do
    let m ← (List.range p.numFreqCtlDomain).foldlM (fun m ctlIdx => do
      let val ← maxControl ctlIdx
      m.adjust (.freq ctlIdx) val) m
    let m ← m.adjust .uncoreMin p.uncoreInitMin
    let m ← m.adjust .uncoreMax p.uncoreInitMax
    let m ← adjustGpuFirst p m
    .ok { m with agent.doWriteBatch := true, agent.isAdjustInitialized := true }
  else .ok m

/-- Adjust a frequency that is not the last one. -/
def adjustTo (ctlIdx : ℕ) (freq : Double) (m : Machine) : Except Exception Machine :=
  if !(m.agent.lastFreq ctlIdx).eq freq then
    Machine.adjust (.freq ctlIdx) freq { m with
      agent.lastFreq := Function.update m.agent.lastFreq ctlIdx freq
      agent.doWriteBatch := true }
  else .ok m

/-- The frequency of a domain in `adjust_platform`. -/
def adjustFreq (m : Machine) (ctlIdx : ℕ) : Except Exception Machine :=
  let currHash := m.agent.lastHash ctlIdx
  match m.agent.hashFreqMap.lookup currHash with
  | some freq => adjustTo ctlIdx freq m
  | none =>
    adjustTo ctlIdx m.agent.defaultFreq
      { m with agent.defaultFreqHash := m.agent.defaultFreqHash.insert currHash }

/-- The uncore frequency in `adjust_platform`. -/
def adjustUncore (m : Machine) : Except Exception Machine :=
  let uncoreFreq := m.agent.uncoreFreq
  if !m.agent.lastUncoreFreq.eq uncoreFreq then
    if !uncoreFreq.isNan then do
      let m ← m.adjust .uncoreMin uncoreFreq
      let m ← m.adjust .uncoreMax uncoreFreq
      .ok { m with agent.doWriteBatch := true, agent.lastUncoreFreq := uncoreFreq }
    else if !m.agent.lastUncoreFreq.isNan then do
      let m ← m.adjust .uncoreMin p.uncoreInitMin
      let m ← m.adjust .uncoreMax p.uncoreInitMax
      .ok { m with agent.doWriteBatch := true, agent.lastUncoreFreq := uncoreFreq }
    else .ok { m with agent.lastUncoreFreq := uncoreFreq }
  else .ok m

/-- The frequency of the GPUs in `adjust_platform`. -/
def adjustGpu (m : Machine) : Except Exception Machine :=
  let gpuFreq := m.agent.defaultGpuFreq
  if p.doGpuCtl && !gpuFreq.isNan && !m.agent.lastGpuFreq.eq gpuFreq then do
    let m ← m.adjust .gpuMin gpuFreq
    let m ← m.adjust .gpuMax gpuFreq
    .ok { m with agent.doWriteBatch := true, agent.lastGpuFreq := gpuFreq }
  else .ok m

def adjustPlatform (maxControl : ℕ → Except Exception Double) (policy : Policy) (m : Machine) :
    Except Exception Machine := do
  let agent ← updatePolicy p policy m.agent
  let m ← adjustFirst p maxControl { m with agent := { agent with doWriteBatch := false } }
  if policy.isAllNan && !m.agent.isRealPolicy then .ok m
  else do
    let m ← (List.range p.numFreqCtlDomain).foldlM adjustFreq m
    let m ← adjustUncore p m
    adjustGpu p m

/-- `FrequencyMapAgent::sample_platform` with the values of the signals. -/
def samplePlatform (sample : ℕ → Double) (m : Machine) : Machine :=
  { m with agent.lastHash := fun ctlIdx => p.toUint64 (sample ctlIdx) }

/-! ### Runs -/

/-- What the controller does at a leaf, with the values that the platform has. -/
inductive Step where
  | walkDown (maxControl : ℕ → Except Exception Double) (policy : Policy)
  | walkUp (sample : ℕ → Double)

/-- `Controller::walk_down` at a leaf. -/
def walkDown (maxControl : ℕ → Except Exception Double) (policy : Policy) (m : Machine) :
    Except Exception Machine := do
  validatePolicy p policy
  let m ← adjustPlatform p maxControl policy m
  if m.agent.doWriteBatch then .ok { m with pio := m.pio.writeBatch } else .ok m

/-- A step. -/
def step (m : Machine) : Step → Except Exception Machine
  | .walkDown maxControl policy => walkDown p maxControl policy m
  | .walkUp sample => .ok (samplePlatform p sample m)

/-- A run, which ends when a step raises. -/
def run (steps : List Step) (m : Machine) : Except Exception Machine := steps.foldlM (step p) m

end Methods

/-! ### What the agent remembers -/

/-- What the controls have after a `write_batch`. -/
def PlatformIO.current (pio : PlatformIO) (c : Control) : Double :=
  (pio.adjusted c).getD (pio.settings c)

theorem adjust_eq_ok {c : Control} {setting : Double} {m m' : Machine}
    (h : m.adjust c setting = .ok m') :
    setting.isNan = false ∧ m'.agent = m.agent ∧ m'.pio.settings = m.pio.settings ∧
      m'.pio.current = Function.update m.pio.current c setting := by
  unfold Machine.adjust at h
  cases hnan : setting.isNan with
  | true => simp [hnan] at h
  | false =>
    simp only [hnan, Bool.false_eq_true, if_false, Except.ok.injEq] at h
    subst h
    refine ⟨rfl, rfl, rfl, funext fun c' => ?_⟩
    unfold PlatformIO.current
    by_cases hc : c' = c
    · subst hc
      simp
    · simp [hc]

/-- A minimum and a maximum are both at the last frequency, or at their initial values. -/
def Held (value : Control → Double) (min max : Control) (last initMin initMax : Double) : Prop :=
  value min = (if last.isNan then initMin else last) ∧
    value max = (if last.isNan then initMax else last)

/-- What the agent remembers is what its controls have after a batch. -/
structure Tracks (p : Platform) (m : Machine) : Prop where
  freq : ∀ i < p.numFreqCtlDomain, (m.agent.lastFreq i).isNan = false →
    m.pio.current (.freq i) = m.agent.lastFreq i
  uncore : m.agent.isAdjustInitialized = true → Held m.pio.current .uncoreMin .uncoreMax
    m.agent.lastUncoreFreq p.uncoreInitMin p.uncoreInitMax
  gpu : m.agent.isAdjustInitialized = true → p.doGpuCtl = true → Held m.pio.current .gpuMin .gpuMax
    m.agent.lastGpuFreq p.gpuInitFreqMax p.gpuInitFreqMax
  fresh : m.agent.isAdjustInitialized = false → (∀ i, m.agent.lastFreq i = .nan) ∧
    m.agent.lastUncoreFreq = .nan ∧ m.agent.lastGpuFreq = .nan

/-- Nothing is adjusted without a batch to write. -/
def Ready (m : Machine) : Prop := m.agent.doWriteBatch = false → m.pio.current = m.pio.settings

/-- What the agent applies: regions, frequencies, and whether a real policy has come. -/
def Agent.request (agent : Agent) :
    (ℕ → BitVec 64) × List (BitVec 64 × Double) × Double × Double × Double × Bool :=
  (agent.lastHash, agent.hashFreqMap, agent.defaultFreq, agent.uncoreFreq, agent.defaultGpuFreq,
    agent.isRealPolicy)

/-- What a part of `adjust_platform` leaves as it is. -/
structure Keeps (p : Platform) (m m' : Machine) : Prop where
  tracks : Tracks p m'
  ready : Ready m'
  request : m'.agent.request = m.agent.request
  initialized : m'.agent.isAdjustInitialized = true

variable {p : Platform} {m m' : Machine} {maxControl : ℕ → Except Exception Double}

/-- The frequencies of all domains are adjusted in the first call. -/
theorem adjustFirst_freq {n : ℕ}
    (h : (List.range n).foldlM (fun m ctlIdx => do
      let val ← maxControl ctlIdx
      Machine.adjust (.freq ctlIdx) val m) m = .ok m') : m'.agent = m.agent := by
  refine Except.foldlM_range_invariant (P := fun _ x => x.agent = m.agent) h rfl ?_
  intro i _ x y hx hy
  obtain ⟨val, -, hy⟩ := exists_of_bind_eq_ok hy
  rw [(adjust_eq_ok hy).2.1, hx]

theorem adjustGpuFirst_eq_ok (h : adjustGpuFirst p m = .ok m') : m'.agent = m.agent ∧
    m'.pio.current = if p.doGpuCtl then
      Function.update (Function.update m.pio.current .gpuMin p.gpuInitFreqMax) .gpuMax
        p.gpuInitFreqMax
      else m.pio.current := by
  unfold adjustGpuFirst at h
  cases hgpu : p.doGpuCtl with
  | true =>
    simp only [hgpu, if_true] at h
    obtain ⟨m₁, hmin, hmax⟩ := exists_of_bind_eq_ok h
    obtain ⟨-, hagent₁, -, hcurrent₁⟩ := adjust_eq_ok hmin
    obtain ⟨-, hagent, -, hcurrent⟩ := adjust_eq_ok hmax
    rw [hagent, hagent₁, hcurrent, hcurrent₁]
    exact ⟨rfl, rfl⟩
  | false =>
    simp only [hgpu, Bool.false_eq_true, if_false, Except.ok.injEq] at h
    rw [h]
    exact ⟨rfl, rfl⟩

theorem adjustFirst_keeps (htracks : Tracks p m)
    (hready : Ready m) (h : adjustFirst p maxControl m = .ok m') :
    Keeps p m m' ∧ m'.agent.lastGpuFreq = m.agent.lastGpuFreq := by
  unfold adjustFirst at h
  cases hinit : m.agent.isAdjustInitialized with
  | true =>
    simp only [hinit, Bool.not_true, Bool.false_eq_true, if_false, Except.ok.injEq] at h
    subst h
    exact ⟨⟨htracks, hready, rfl, hinit⟩, rfl⟩
  | false =>
    simp only [hinit, Bool.not_false, if_true] at h
    obtain ⟨m₁, hfreq, h⟩ := exists_of_bind_eq_ok h
    obtain ⟨m₂, hmin, h⟩ := exists_of_bind_eq_ok h
    obtain ⟨m₃, hmax, h⟩ := exists_of_bind_eq_ok h
    obtain ⟨m₄, hgpu, h⟩ := exists_of_bind_eq_ok h
    obtain ⟨-, hagent₂, -, hcurrent₂⟩ := adjust_eq_ok hmin
    obtain ⟨-, hagent₃, -, hcurrent₃⟩ := adjust_eq_ok hmax
    obtain ⟨hagent₄, hcurrent₄⟩ := adjustGpuFirst_eq_ok hgpu
    have hagent : m₄.agent = m.agent := by rw [hagent₄, hagent₃, hagent₂, adjustFirst_freq hfreq]
    -- nothing was set before, so the memories are NaN
    obtain ⟨hnanFreq, hnanUncore, hnanGpu⟩ := htracks.fresh hinit
    cases h
    refine ⟨⟨⟨?_, ?_, ?_, ?_⟩, ?_, ?_, rfl⟩, ?_⟩
    · intro i _ hnan
      rw [show m₄.agent.lastFreq i = .nan from by rw [hagent]; exact hnanFreq i] at hnan
      cases hnan
    · intro _
      rw [hagent, hnanUncore]
      constructor <;> cases hdo : p.doGpuCtl <;> 
        simp [hcurrent₄, hcurrent₃, hcurrent₂, hdo, Double.isNan]
    · intro _ hdo
      rw [hagent, hnanGpu]
      constructor <;> simp [hcurrent₄, hdo, Double.isNan]
    · intro hfalse
      cases hfalse
    · intro hfalse
      cases hfalse
    · simp only [Agent.request, hagent]
    · simp only [hagent]

theorem Keeps.trans {m'' : Machine} (h : Keeps p m m') (h' : Keeps p m' m'') : Keeps p m m'' :=
  ⟨h'.tracks, h'.ready, h'.request.trans h.request, h'.initialized⟩

theorem adjustTo_keeps {i : ℕ} {freq : Double} (htracks : Tracks p m) (hready : Ready m)
    (hinit : m.agent.isAdjustInitialized = true) (h : adjustTo i freq m = .ok m') :
    Keeps p m m' ∧ (m'.agent.lastFreq i).eq freq = true ∧
      (∀ j, j ≠ i → m'.agent.lastFreq j = m.agent.lastFreq j) ∧
      m'.agent.lastGpuFreq = m.agent.lastGpuFreq := by
  unfold adjustTo at h
  cases heq : (m.agent.lastFreq i).eq freq with
  | true =>
    simp only [heq, Bool.not_true, Bool.false_eq_true, if_false, Except.ok.injEq] at h
    subst h
    exact ⟨⟨htracks, hready, rfl, hinit⟩, heq, fun _ _ => rfl, rfl⟩
  | false =>
    simp only [heq, Bool.not_false, if_true] at h
    obtain ⟨hnan, hagent, -, hcurrent⟩ := adjust_eq_ok h
    have hlast : m'.agent.lastFreq = Function.update m.agent.lastFreq i freq := by rw [hagent]
    refine ⟨⟨⟨?_, ?_, ?_, ?_⟩, ?_, ?_, ?_⟩, ?_, ?_, ?_⟩
    · intro j hj hnan'
      rw [hlast] at hnan' ⊢
      rw [hcurrent]
      by_cases hji : j = i
      · subst hji
        simp
      · rw [Function.update_of_ne hji] at hnan' ⊢
        simpa [hji] using htracks.freq j hj hnan'
    · intro _
      rw [hagent, hcurrent]
      simpa [Held] using htracks.uncore hinit
    · intro _ hdo
      rw [hagent, hcurrent]
      simpa [Held] using htracks.gpu hinit hdo
    · rw [hagent]
      exact fun hfalse => nomatch hinit.symm.trans hfalse
    · intro hfalse
      rw [hagent] at hfalse
      cases hfalse
    · rw [hagent]
      rfl
    · rw [hagent]
      exact hinit
    · rw [hlast, Function.update_self]
      exact eq_self_of_not_nan hnan
    · intro j hj
      rw [hlast, Function.update_of_ne hj]
    · rw [hagent]

/-- The frequency that the agent wants for a region. -/
def Agent.freqOf (agent : Agent) (hash : BitVec 64) : Double :=
  (agent.hashFreqMap.lookup hash).getD agent.defaultFreq

theorem adjustFreq_keeps {i : ℕ} (htracks : Tracks p m) (hready : Ready m)
    (hinit : m.agent.isAdjustInitialized = true) (h : adjustFreq m i = .ok m') :
    Keeps p m m' ∧ (m'.agent.lastFreq i).eq (m.agent.freqOf (m.agent.lastHash i)) = true ∧
      (∀ j, j ≠ i → m'.agent.lastFreq j = m.agent.lastFreq j) ∧
      m'.agent.lastGpuFreq = m.agent.lastGpuFreq := by
  unfold adjustFreq at h
  unfold Agent.freqOf
  dsimp only at h
  cases hlookup : m.agent.hashFreqMap.lookup (m.agent.lastHash i) with
  | some freq =>
    rw [hlookup] at h
    exact adjustTo_keeps htracks hready hinit h
  | none =>
    rw [hlookup] at h
    let m₁ : Machine :=
      { m with agent.defaultFreqHash := m.agent.defaultFreqHash.insert (m.agent.lastHash i) }
    have htracks₁ : Tracks p m₁ := ⟨htracks.freq, htracks.uncore, htracks.gpu, htracks.fresh⟩
    obtain ⟨hkeeps, hrest⟩ := adjustTo_keeps (m := m₁) htracks₁ hready hinit h
    exact ⟨⟨hkeeps.tracks, hkeeps.ready, hkeeps.request, hkeeps.initialized⟩, hrest⟩

/-- The loop over the domains sets the frequencies of all regions. -/
theorem adjustFreqs_keeps (htracks : Tracks p m) (hready : Ready m)
    (hinit : m.agent.isAdjustInitialized = true)
    (h : (List.range p.numFreqCtlDomain).foldlM adjustFreq m = .ok m') :
    Keeps p m m' ∧ (∀ i < p.numFreqCtlDomain,
      (m'.agent.lastFreq i).eq (m.agent.freqOf (m.agent.lastHash i)) = true) ∧
      m'.agent.lastGpuFreq = m.agent.lastGpuFreq := by
  -- after `n` rounds the domains below `n` are done
  refine Except.foldlM_range_invariant (P := fun n x => Keeps p m x ∧ (∀ i < n,
    (x.agent.lastFreq i).eq (m.agent.freqOf (m.agent.lastHash i)) = true) ∧
      x.agent.lastGpuFreq = m.agent.lastGpuFreq) h
    ⟨⟨htracks, hready, rfl, hinit⟩, fun i hi => absurd hi i.not_lt_zero, rfl⟩ ?_
  intro n _ x y hx hy
  obtain ⟨hkeeps, hdone, hgpu⟩ := hx
  obtain ⟨hkeeps', hset, hothers, hgpu'⟩ :=
    adjustFreq_keeps hkeeps.tracks hkeeps.ready hkeeps.initialized hy
  have hrequest : x.agent.freqOf (x.agent.lastHash n) = m.agent.freqOf (m.agent.lastHash n) := by
    have hsame := hkeeps.request
    simp only [Agent.request, Prod.mk.injEq] at hsame
    simp only [Agent.freqOf, hsame]
  refine ⟨hkeeps.trans hkeeps', fun i hi => ?_, hgpu'.trans hgpu⟩
  by_cases hin : i = n
  · subst hin
    rw [← hrequest]
    exact hset
  · rw [hothers i hin]
    exact hdone i (by omega)

theorem adjust_pair {min max : Control} {freqMin freqMax : Double} {m₁ : Machine}
    (hmin : m.adjust min freqMin = .ok m₁) (hmax : m₁.adjust max freqMax = .ok m') :
    m'.agent = m.agent ∧
      m'.pio.current = Function.update (Function.update m.pio.current min freqMin) max freqMax := by
  obtain ⟨-, hagent₁, -, hcurrent₁⟩ := adjust_eq_ok hmin
  obtain ⟨-, hagent, -, hcurrent⟩ := adjust_eq_ok hmax
  rw [hagent, hagent₁, hcurrent, hcurrent₁]
  exact ⟨rfl, rfl⟩

theorem adjustUncore_pair {freqMin freqMax : Double} {m₁ m₂ : Machine} (htracks : Tracks p m)
    (hinit : m.agent.isAdjustInitialized = true) (hmin : m.adjust .uncoreMin freqMin = .ok m₁)
    (hmax : m₁.adjust .uncoreMax freqMax = .ok m₂)
    (hfreq : (freqMin, freqMax) = if m.agent.uncoreFreq.isNan then
      (p.uncoreInitMin, p.uncoreInitMax) else (m.agent.uncoreFreq, m.agent.uncoreFreq)) :
    Keeps p m { m₂ with agent.doWriteBatch := true, agent.lastUncoreFreq := m.agent.uncoreFreq } ∧
      m₂.agent = m.agent := by
  obtain ⟨hagent, hcurrent⟩ := adjust_pair hmin hmax
  have hinit' : m₂.agent.isAdjustInitialized = true := hagent ▸ hinit
  refine ⟨⟨⟨?_, fun _ => ?_, ?_, fun hfalse => nomatch hinit'.symm.trans hfalse⟩, nofun, ?_, hinit'⟩,
    hagent⟩
  · simpa [hagent, hcurrent] using htracks.freq
  · cases hnan : m.agent.uncoreFreq.isNan <;> rw [hnan] at hfreq <;> cases hfreq <;>
      simp [Held, hcurrent, hnan]
  · simpa [hagent, hcurrent, Held] using htracks.gpu
  · simp only [Agent.request, hagent]

theorem adjustUncore_keeps (htracks : Tracks p m) (hready : Ready m)
    (hinit : m.agent.isAdjustInitialized = true) (h : adjustUncore p m = .ok m') :
    Keeps p m m' ∧ (m.agent.uncoreFreq.isNan = true → m'.agent.lastUncoreFreq.isNan = true) ∧
      (m.agent.uncoreFreq.isNan = false →
        m'.agent.lastUncoreFreq.eq m.agent.uncoreFreq = true) ∧
      m'.agent.lastFreq = m.agent.lastFreq ∧ m'.agent.lastGpuFreq = m.agent.lastGpuFreq := by
  unfold adjustUncore at h
  dsimp only at h
  cases heq : m.agent.lastUncoreFreq.eq m.agent.uncoreFreq with
  | true =>
    simp only [heq, Bool.not_true, Bool.false_eq_true, if_false, Except.ok.injEq] at h
    subst h
    refine ⟨⟨htracks, hready, rfl, hinit⟩, fun hnan => ?_, fun _ => heq, rfl, rfl⟩
    rw [(not_nan_of_eq heq).2] at hnan
    cases hnan
  | false =>
    simp only [heq, Bool.not_false, if_true] at h
    cases hnan : m.agent.uncoreFreq.isNan with
    | false =>
      simp only [hnan, Bool.not_false, if_true] at h
      obtain ⟨m₁, hmin, h⟩ := exists_of_bind_eq_ok h
      obtain ⟨m₂, hmax, h⟩ := exists_of_bind_eq_ok h
      obtain ⟨hkeeps, hagent⟩ := adjustUncore_pair htracks hinit hmin hmax (by simp [hnan])
      cases h
      exact ⟨hkeeps, nofun, fun _ => eq_self_of_not_nan hnan, by simp only [hagent],
        by simp only [hagent]⟩
    | true =>
      simp only [hnan, Bool.not_true, Bool.false_eq_true, if_false] at h
      cases hlast : m.agent.lastUncoreFreq.isNan with
      | false =>
        simp only [hlast, Bool.not_false, if_true] at h
        obtain ⟨m₁, hmin, h⟩ := exists_of_bind_eq_ok h
        obtain ⟨m₂, hmax, h⟩ := exists_of_bind_eq_ok h
        obtain ⟨hkeeps, hagent⟩ := adjustUncore_pair htracks hinit hmin hmax (by simp [hnan])
        cases h
        exact ⟨hkeeps, fun _ => hnan, nofun, by simp only [hagent], by simp only [hagent]⟩
      | true =>
        simp only [hlast, Bool.not_true, Bool.false_eq_true, if_false, Except.ok.injEq] at h
        subst h
        refine ⟨⟨⟨htracks.freq, ?_, htracks.gpu, ?_⟩, hready, rfl, hinit⟩, fun _ => hnan,
          fun hfalse => (nomatch hfalse), rfl, rfl⟩
        · intro _
          simpa [Held, hnan, hlast] using htracks.uncore hinit
        · exact fun hfalse => nomatch hinit.symm.trans hfalse

theorem adjustGpu_keeps (htracks : Tracks p m) (hready : Ready m)
    (hinit : m.agent.isAdjustInitialized = true) (h : adjustGpu p m = .ok m') :
    Keeps p m m' ∧ m'.agent.lastFreq = m.agent.lastFreq ∧
      m'.agent.lastUncoreFreq = m.agent.lastUncoreFreq ∧
      (m.agent.defaultGpuFreq.isNan = true → m'.agent.lastGpuFreq = m.agent.lastGpuFreq) ∧
      (p.doGpuCtl = true → m.agent.defaultGpuFreq.isNan = false →
        m'.agent.lastGpuFreq.eq m.agent.defaultGpuFreq = true) := by
  unfold adjustGpu at h
  dsimp only at h
  cases hadjust : p.doGpuCtl && !m.agent.defaultGpuFreq.isNan &&
      !m.agent.lastGpuFreq.eq m.agent.defaultGpuFreq with
  | false =>
    simp only [hadjust, Bool.false_eq_true, if_false, Except.ok.injEq] at h
    subst h
    refine ⟨⟨htracks, hready, rfl, hinit⟩, rfl, rfl, fun _ => rfl, fun hdo hnan => ?_⟩
    simpa [hdo, hnan] using hadjust
  | true =>
    simp only [hadjust, if_true] at h
    obtain ⟨m₁, hmin, h⟩ := exists_of_bind_eq_ok h
    obtain ⟨m₂, hmax, h⟩ := exists_of_bind_eq_ok h
    obtain ⟨hagent, hcurrent⟩ := adjust_pair hmin hmax
    have hinit' : m₂.agent.isAdjustInitialized = true := hagent ▸ hinit
    have hnan : m.agent.defaultGpuFreq.isNan = false := by
      simp only [Bool.and_eq_true, Bool.not_eq_true'] at hadjust
      exact hadjust.1.2
    cases h
    refine ⟨⟨⟨?_, ?_, ?_, ?_⟩, ?_, ?_, ?_⟩, ?_, ?_, ?_, ?_⟩
    · simpa [hagent, hcurrent] using htracks.freq
    · simpa [hagent, hcurrent, Held] using htracks.uncore
    · simp [Held, hcurrent, hnan]
    · exact fun hfalse => nomatch hinit'.symm.trans hfalse
    · exact fun hfalse => nomatch hfalse
    · simp only [Agent.request, hagent]
    · exact hinit'
    · simp only [hagent]
    · simp only [hagent]
    · simp [hnan]
    · exact fun _ _ => eq_self_of_not_nan hnan

/-! ### The map of a policy -/

/-- The policy maps a region to a frequency. -/
def Policy.Maps (p : Platform) (policy : Policy) (hash : BitVec 64) (freq : Double) : Prop :=
  ∃ r ∈ policy.regions, r.1.isNan = false ∧ p.toUint64 r.1 = hash ∧ r.2 = freq

theorem lookup_hashFreqMapOf (regions : List (Double × Double)) (hash : BitVec 64) :
    (hashFreqMapOf p regions).lookup hash = lastOf (fun r =>
      if r.1.isNan = false ∧ p.toUint64 r.1 = hash then some r.2 else none) regions := by
  unfold hashFreqMapOf
  induction regions using List.reverseRecOn with
  | nil => rfl
  | append_singleton regions r ih =>
    rw [List.foldl_append, foldl_cons, foldl_nil, lastOf_concat]
    cases hnan : r.1.isNan with
    | true => simpa [hnan] using ih
    | false =>
      rw [if_neg Bool.false_ne_true, SortedMap.lookup_assign, ih]
      by_cases hhash : p.toUint64 r.1 = hash
      · simp [hhash]
      · simp [hhash, Ne.symm hhash]

/-- A policy that is accepted has one frequency for a region. -/
theorem checkRegions_pairwise {policyRegions : List (BitVec 64)} {regions : List (Double × Double)}
    (h : checkRegions p policyRegions regions = .ok ⟨⟩) :
    (∀ r ∈ regions, r.1.isNan = false → p.toUint64 r.1 ∉ policyRegions) ∧
      regions.Pairwise fun r r' => r.1.isNan = false → r'.1.isNan = false →
        p.toUint64 r.1 ≠ p.toUint64 r'.1 := by
  induction regions generalizing policyRegions with
  | nil => simp
  | cons r regions ih =>
    obtain ⟨hash, mappedFreq⟩ := r
    unfold checkRegions at h
    split_ifs at h with hnan _ _ hmem
    · obtain ⟨hnew, hpairwise⟩ := ih h
      simp only [mem_cons, forall_eq_or_imp, pairwise_cons, hnan]
      exact ⟨⟨fun hfalse => (nomatch hfalse), hnew⟩, fun _ _ hfalse => (nomatch hfalse), hpairwise⟩
    · obtain ⟨hnew, hpairwise⟩ := ih h
      simp only [mem_cons, forall_eq_or_imp, pairwise_cons]
      refine ⟨⟨fun _ => hmem, fun r hr hrnan => ?_⟩, fun r hr _ hrnan heq => ?_, hpairwise⟩
      · exact fun hin => hnew r hr hrnan (mem_cons_of_mem _ hin)
      · exact hnew r hr hrnan (heq ▸ mem_cons_self)

variable {policy : Policy}

theorem validatePolicy_eq_ok (hreal : policy.isAllNan = false)
    (h : validatePolicy p policy = .ok ⟨⟩) : policy.freqCpuDefault.isNan = false ∧
      ∀ hash freq freq', policy.Maps p hash freq → policy.Maps p hash freq' → freq = freq' := by
  unfold validatePolicy at h
  rw [if_neg (by simp [hreal])] at h
  split_ifs at h with hnan
  refine ⟨Bool.eq_false_iff.mpr hnan, ?_⟩
  obtain ⟨_, -, hregions⟩ := exists_of_bind_eq_ok h
  obtain ⟨-, hpairwise⟩ := checkRegions_pairwise hregions
  rintro hash freq freq' ⟨r, hr, hrnan, hrhash, rfl⟩ ⟨r', hr', hrnan', hrhash', rfl⟩
  by_contra hne
  have hsymm : Std.Symm fun r r' : Double × Double => r.1.isNan = false → r'.1.isNan = false →
      p.toUint64 r.1 ≠ p.toUint64 r'.1 := ⟨fun _ _ h hr hr' => (h hr' hr).symm⟩
  refine hpairwise.forall hr hr' (fun heq => hne (by rw [heq])) hrnan hrnan' ?_
  rw [hrhash, hrhash']

theorem freqOf_hashFreqMapOf {agent : Agent} {hash : BitVec 64}
    (hmap : agent.hashFreqMap = hashFreqMapOf p policy.regions)
    (hunique : ∀ hash freq freq', policy.Maps p hash freq → policy.Maps p hash freq' →
      freq = freq') :
    (∀ freq, policy.Maps p hash freq → agent.freqOf hash = freq) ∧
      ((∀ freq, ¬ policy.Maps p hash freq) → agent.freqOf hash = agent.defaultFreq) := by
  unfold Agent.freqOf
  rw [hmap, lookup_hashFreqMapOf]
  cases hlast : lastOf (fun r : Double × Double =>
      if r.1.isNan = false ∧ p.toUint64 r.1 = hash then some r.2 else none) policy.regions with
  | none =>
    refine ⟨fun freq hmaps => ?_, fun _ => rfl⟩
    obtain ⟨r, hr, hnan, hhash, -⟩ := hmaps
    have hnone := lastOf_eq_none_iff.mp hlast r hr
    simp [hnan, hhash] at hnone
  | some freq =>
    have hmaps : policy.Maps p hash freq := by
      obtain ⟨before, r, after, heq, hr, -⟩ := lastOf_eq_some_iff.mp hlast
      split_ifs at hr with hcond
      refine ⟨r, ?_, hcond.1, hcond.2, Option.some.inj hr⟩
      rw [heq]
      exact mem_append_right _ mem_cons_self
    exact ⟨fun freq' hmaps' => hunique hash _ _ hmaps hmaps', fun hnone => absurd hmaps (hnone _)⟩

/-- What `update_policy` does with a real policy. -/
theorem updatePolicy_eq_ok {agent agent' : Agent}
    (hreal : policy.isAllNan = false) (hdefault : policy.freqCpuDefault.isNan = false)
    (h : updatePolicy p policy agent = .ok agent') :
    agent'.hashFreqMap = hashFreqMapOf p policy.regions ∧
      agent'.defaultFreq.eq policy.freqCpuDefault = true ∧
      agent'.uncoreFreq = policy.freqCpuUncore ∧ agent'.defaultGpuFreq = policy.freqGpuDefault ∧
      agent'.isRealPolicy = true := by
  unfold updatePolicy at h
  rw [if_neg (by simp [hreal])] at h
  cases h
  refine ⟨rfl, ?_, rfl, rfl, rfl⟩
  dsimp only
  split_ifs with heq
  · exact eq_self_of_not_nan hdefault
  · simpa using heq

theorem updatePolicy_frame {agent agent' : Agent}
    (h : updatePolicy p policy agent = .ok agent') : agent'.lastHash = agent.lastHash ∧
      agent'.lastFreq = agent.lastFreq ∧ agent'.lastUncoreFreq = agent.lastUncoreFreq ∧
      agent'.lastGpuFreq = agent.lastGpuFreq ∧
      agent'.isAdjustInitialized = agent.isAdjustInitialized := by
  unfold updatePolicy at h
  split_ifs at h <;> cases h <;> exact ⟨rfl, rfl, rfl, rfl, rfl⟩

/-! ### The policy in force -/

/-- A minimum and a maximum are both at a frequency, or at their initial values for NaN. -/
def AreAt (settings : Control → Double) (min max : Control) (freq initMin initMax : Double) :
    Prop :=
  if freq.isNan then settings min = initMin ∧ settings max = initMax
  else (settings min).eq freq = true ∧ (settings max).eq freq = true

/-- The controls are as the policy says, for the regions of the domains, and a frequency of the GPUs
with their initial values. -/
structure InForce (p : Platform) (hash : ℕ → BitVec 64) (policy : Policy)
    (gpuFreq gpuInitMin gpuInitMax : Double) (settings : Control → Double) : Prop where
  mapped : ∀ i < p.numFreqCtlDomain, ∀ freq, policy.Maps p (hash i) freq →
    (settings (.freq i)).eq freq = true
  unmapped : ∀ i < p.numFreqCtlDomain, (∀ freq, ¬ policy.Maps p (hash i) freq) →
    (settings (.freq i)).eq policy.freqCpuDefault = true
  uncore : AreAt settings .uncoreMin .uncoreMax policy.freqCpuUncore p.uncoreInitMin
    p.uncoreInitMax
  gpu : p.doGpuCtl = true → AreAt settings .gpuMin .gpuMax gpuFreq gpuInitMin gpuInitMax

/-- The last region that has been sampled for a domain. -/
def hashAfter (p : Platform) (steps : List Step) (ctlIdx : ℕ) : BitVec 64 :=
  (lastOf (fun
    | .walkUp sample => some (p.toUint64 (sample ctlIdx))
    | .walkDown _ _ => none) steps).getD regionHashUnmarked

/-- The frequency of the GPUs that a step brings. -/
def gpuFreqOf : Step → Option Double
  | .walkDown _ policy => if policy.freqGpuDefault.isNan then none else some policy.freqGpuDefault
  | .walkUp _ => none

/-- What holds after the steps of a run. -/
structure Inv (p : Platform) (steps : List Step) (m : Machine) : Prop where
  tracks : Tracks p m
  synced : m.pio.current = m.pio.settings
  hash : m.agent.lastHash = hashAfter p steps
  noGpu : lastOf gpuFreqOf steps = none → m.agent.lastGpuFreq.isNan = true
  gpu : p.doGpuCtl = true → ∀ freq, lastOf gpuFreqOf steps = some freq →
    m.agent.lastGpuFreq.eq freq = true

/-- The machine when the agent has been initialized. -/
def initial (settings : Control → Double) : Machine where
  pio := { settings := settings }

theorem inv_initial (settings : Control → Double) : Inv p [] (initial settings) where
  tracks := ⟨fun _ _ hfalse => (nomatch hfalse), fun hfalse => (nomatch hfalse),
    fun hfalse => (nomatch hfalse), fun _ => ⟨fun _ => rfl, rfl, rfl⟩⟩
  synced := rfl
  hash := rfl
  noGpu _ := rfl
  gpu _ _ hfalse := nomatch hfalse

/-- `adjust_platform` brings what the agent remembers to what it wants. -/
structure Adjusts (p : Platform) (agent : Agent) (lastGpuFreq : Double) (m' : Machine) : Prop where
  freq : ∀ i < p.numFreqCtlDomain,
    (m'.agent.lastFreq i).eq (agent.freqOf (agent.lastHash i)) = true
  noUncore : agent.uncoreFreq.isNan = true → m'.agent.lastUncoreFreq.isNan = true
  uncore : agent.uncoreFreq.isNan = false → m'.agent.lastUncoreFreq.eq agent.uncoreFreq = true
  noGpu : agent.defaultGpuFreq.isNan = true → m'.agent.lastGpuFreq = lastGpuFreq
  gpu : p.doGpuCtl = true → agent.defaultGpuFreq.isNan = false →
    m'.agent.lastGpuFreq.eq agent.defaultGpuFreq = true

theorem adjustPlatform_spec (htracks : Tracks p m) (hsynced : m.pio.current = m.pio.settings)
    (h : adjustPlatform p maxControl policy m = .ok m') :
    ∃ agent, updatePolicy p policy m.agent = .ok agent ∧ Tracks p m' ∧ Ready m' ∧
      m'.agent.request = agent.request ∧ m'.agent.isAdjustInitialized = true ∧
      (policy.isAllNan = true → m'.agent.lastGpuFreq = m.agent.lastGpuFreq) ∧
      (policy.isAllNan = false → Adjusts p agent m.agent.lastGpuFreq m') := by
  unfold adjustPlatform at h
  obtain ⟨agent, hupdate, h⟩ := exists_of_bind_eq_ok h
  obtain ⟨m₁, hfirst, h⟩ := exists_of_bind_eq_ok h
  obtain ⟨-, hlastFreq, hlastUncore, hlastGpu, hinit⟩ := updatePolicy_frame hupdate
  have htracks₀ : Tracks p { m with agent := { agent with doWriteBatch := false } } := by
    refine ⟨?_, ?_, ?_, ?_⟩
    · simpa only [hlastFreq] using htracks.freq
    · simpa only [hlastUncore, hinit] using htracks.uncore
    · simpa only [hlastGpu, hinit] using htracks.gpu
    · simpa only [hlastFreq, hlastUncore, hlastGpu, hinit] using htracks.fresh
  obtain ⟨hkeeps₁, hgpu₁⟩ := adjustFirst_keeps htracks₀ (fun _ => hsynced) hfirst
  rw [show Machine.agent _ = _ from rfl] at hgpu₁
  refine ⟨agent, hupdate, ?_⟩
  cases hreal : policy.isAllNan with
  | true =>
    -- the policy was accepted, so there is no real one yet
    have hnone : m₁.agent.isRealPolicy = false := by
      have hsame := hkeeps₁.request
      simp only [Agent.request, Prod.mk.injEq] at hsame
      rw [hsame.2.2.2.2.2]
      unfold updatePolicy at hupdate
      rw [if_pos hreal] at hupdate
      split_ifs at hupdate with hreal'
      cases hupdate
      simpa using hreal'
    simp only [hreal, hnone, Bool.not_false, Bool.and_self, if_true, Except.ok.injEq] at h
    subst h
    exact ⟨hkeeps₁.tracks, hkeeps₁.ready, hkeeps₁.request, hkeeps₁.initialized,
      fun _ => hgpu₁.trans hlastGpu, fun hfalse => nomatch hfalse⟩
  | false =>
    simp only [hreal, Bool.false_and, Bool.false_eq_true, if_false] at h
    obtain ⟨m₂, hfreqs, h⟩ := exists_of_bind_eq_ok h
    obtain ⟨m₃, huncore, hgpu⟩ := exists_of_bind_eq_ok h
    obtain ⟨hkeeps₂, hfreq₂, hgpu₂⟩ :=
      adjustFreqs_keeps hkeeps₁.tracks hkeeps₁.ready hkeeps₁.initialized hfreqs
    obtain ⟨hkeeps₃, hnoUncore₃, huncore₃, hfreq₃, hgpu₃⟩ :=
      adjustUncore_keeps hkeeps₂.tracks hkeeps₂.ready hkeeps₂.initialized huncore
    obtain ⟨hkeeps₄, hfreq₄, huncore₄, hnoGpu₄, hgpu₄⟩ :=
      adjustGpu_keeps hkeeps₃.tracks hkeeps₃.ready hkeeps₃.initialized hgpu
    have hrequest₁ : m₁.agent.request = agent.request := hkeeps₁.request
    have hrequest₂ := hkeeps₂.request.trans hrequest₁
    have hrequest₃ := hkeeps₃.request.trans hrequest₂
    have hrequest₄ := hkeeps₄.request.trans hrequest₃
    refine ⟨hkeeps₄.tracks, hkeeps₄.ready, hrequest₄, hkeeps₄.initialized,
      fun hfalse => (nomatch hfalse), fun _ => ?_⟩
    simp only [Agent.request, Prod.mk.injEq] at hrequest₁ hrequest₂ hrequest₃
    refine ⟨fun i hi => ?_, fun hnan => ?_, fun hnan => ?_, fun hnan => ?_, fun hdo hnan => ?_⟩
    · rw [hfreq₄, hfreq₃]
      simpa only [Agent.freqOf, hrequest₁] using hfreq₂ i hi
    · rw [huncore₄]
      exact hnoUncore₃ (by rw [hrequest₂.2.2.2.1]; exact hnan)
    · rw [huncore₄, ← hrequest₂.2.2.2.1]
      exact huncore₃ (by rw [hrequest₂.2.2.2.1]; exact hnan)
    · rw [hnoGpu₄ (by rw [hrequest₃.2.2.2.2.1]; exact hnan), hgpu₃, hgpu₂, hgpu₁]
      exact hlastGpu
    · rw [← hrequest₃.2.2.2.2.1]
      exact hgpu₄ hdo (by rw [hrequest₃.2.2.2.2.1]; exact hnan)

theorem current_writeBatch (pio : PlatformIO) : pio.writeBatch.current = pio.current := by
  funext c
  unfold PlatformIO.current PlatformIO.writeBatch
  cases hc : pio.adjusted c <;> simp [hc]

/-- The batch is written when something was adjusted, so the controls are as adjusted. -/
theorem walkDown_eq_ok (htracks : Tracks p m) (hsynced : m.pio.current = m.pio.settings)
    (h : walkDown p maxControl policy m = .ok m') : validatePolicy p policy = .ok ⟨⟩ ∧
      ∃ m₁, adjustPlatform p maxControl policy m = .ok m₁ ∧ m'.agent = m₁.agent ∧
        m'.pio.settings = m₁.pio.current ∧ m'.pio.current = m₁.pio.current := by
  unfold walkDown at h
  obtain ⟨⟨⟩, hvalid, h⟩ := exists_of_bind_eq_ok h
  obtain ⟨m₁, hadjust, h⟩ := exists_of_bind_eq_ok h
  obtain ⟨-, -, -, hready, -⟩ := adjustPlatform_spec htracks hsynced hadjust
  refine ⟨hvalid, m₁, hadjust, ?_⟩
  cases hwrite : m₁.agent.doWriteBatch with
  | true =>
    rw [if_pos hwrite] at h
    cases h
    exact ⟨rfl, rfl, current_writeBatch _⟩
  | false =>
    rw [if_neg (by simp [hwrite])] at h
    cases h
    exact ⟨rfl, (hready hwrite).symm, rfl⟩

theorem areAt_of_held {settings : Control → Double} {min max : Control}
    {last freq initMin initMax : Double} (h : Held settings min max last initMin initMax)
    (hnan : freq.isNan = true → last.isNan = true)
    (heq : freq.isNan = false → last.eq freq = true) :
    AreAt settings min max freq initMin initMax := by
  unfold AreAt
  obtain ⟨hmin, hmax⟩ := h
  cases hfreq : freq.isNan with
  | true =>
    rw [if_pos (hnan hfreq)] at hmin hmax
    exact ⟨hmin, hmax⟩
  | false =>
    have hlast := heq hfreq
    simp only [(not_nan_of_eq hlast).1, Bool.false_eq_true, if_false] at hmin hmax
    simp [hmin, hmax, hlast]

/-- What a walk down keeps, and what it brings about with a real policy. -/
theorem walkDown_inv {steps : List Step}
    (hinv : Inv p steps m) (h : walkDown p maxControl policy m = .ok m') :
    Inv p (steps ++ [.walkDown maxControl policy]) m' ∧
      (policy.isAllNan = false → InForce p (hashAfter p steps) policy
        ((lastOf gpuFreqOf (steps ++ [.walkDown maxControl policy])).getD .nan)
        p.gpuInitFreqMax p.gpuInitFreqMax m'.pio.settings) := by
  obtain ⟨hvalid, m₁, hadjust, hagent, hsettings, hcurrent⟩ :=
    walkDown_eq_ok hinv.tracks hinv.synced h
  obtain ⟨agent, hupdate, htracks, -, hrequest, hinit, hallNan, hadjusts⟩ :=
    adjustPlatform_spec hinv.tracks hinv.synced hadjust
  have hlastHash : agent.lastHash = hashAfter p steps :=
    (updatePolicy_frame hupdate).1.trans hinv.hash
  have hhash : m₁.agent.lastHash = hashAfter p steps :=
    (congrArg Prod.fst hrequest).trans hlastHash
  -- the agent follows the frequency of the GPUs only where the policy has one
  have hgpu : (policy.freqGpuDefault.isNan = true →
        m'.agent.lastGpuFreq = m.agent.lastGpuFreq) ∧
      (p.doGpuCtl = true → policy.freqGpuDefault.isNan = false →
        m'.agent.lastGpuFreq.eq policy.freqGpuDefault = true) := by
    rw [hagent]
    cases hreal : policy.isAllNan with
    | true =>
      refine ⟨fun _ => hallNan hreal, fun _ hnan => ?_⟩
      simp [Policy.isAllNan, hnan] at hreal
    | false =>
      obtain ⟨-, -, -, hdefaultGpu, -⟩ :=
        updatePolicy_eq_ok hreal (validatePolicy_eq_ok hreal hvalid).1 hupdate
      rw [← hdefaultGpu]
      exact ⟨(hadjusts hreal).noGpu, (hadjusts hreal).gpu⟩
  have hinv' : Inv p (steps ++ [.walkDown maxControl policy]) m' := by
    refine ⟨⟨?_, ?_, ?_, ?_⟩, hcurrent.trans hsettings.symm, ?_, ?_, ?_⟩
    · rw [hagent, hcurrent]
      exact htracks.freq
    · rw [hagent, hcurrent]
      exact htracks.uncore
    · rw [hagent, hcurrent]
      exact htracks.gpu
    · rw [hagent]
      exact htracks.fresh
    · rw [hagent, hhash]
      funext i
      simp [hashAfter, lastOf_concat]
    · rw [lastOf_concat]
      cases hnan : policy.freqGpuDefault.isNan with
      | true =>
        rw [hgpu.1 hnan]
        simpa [gpuFreqOf, hnan] using hinv.noGpu
      | false => simp [gpuFreqOf, hnan]
    · rw [lastOf_concat]
      intro hdo freq hfreq
      cases hnan : policy.freqGpuDefault.isNan with
      | true =>
        rw [hgpu.1 hnan]
        exact hinv.gpu hdo freq (by simpa [gpuFreqOf, hnan] using hfreq)
      | false =>
        have heq : policy.freqGpuDefault = freq := by simpa [gpuFreqOf, hnan] using hfreq
        exact heq ▸ hgpu.2 hdo hnan
  refine ⟨hinv', fun hreal => ?_⟩
  obtain ⟨hdefault, hunique⟩ := validatePolicy_eq_ok hreal hvalid
  obtain ⟨hmap, hdefaultFreq, huncoreFreq, -, -⟩ := updatePolicy_eq_ok hreal hdefault hupdate
  obtain ⟨hfreq, hnoUncore, huncore, -, -⟩ := hadjusts hreal
  -- a control of a domain is at the last frequency of the domain
  have hset : ∀ i < p.numFreqCtlDomain,
      (m'.pio.settings (.freq i)).eq (agent.freqOf (hashAfter p steps i)) = true := by
    intro i hi
    have hwanted := hfreq i hi
    rw [hlastHash] at hwanted
    rw [hsettings, htracks.freq i hi (not_nan_of_eq hwanted).1]
    exact hwanted
  refine ⟨fun i hi freq hmaps => ?_, fun i hi hnone => ?_, ?_, fun hdo => ?_⟩
  · rw [← (freqOf_hashFreqMapOf hmap hunique).1 freq hmaps]
    exact hset i hi
  · have hfreqOf := hset i hi
    rw [(freqOf_hashFreqMapOf hmap hunique).2 hnone] at hfreqOf
    exact eq_trans hfreqOf hdefaultFreq
  · rw [hsettings, ← huncoreFreq]
    exact areAt_of_held (htracks.uncore hinit) hnoUncore huncore
  · have hheld := hinv'.tracks.gpu (hagent ▸ hinit) hdo
    rw [hcurrent, ← hsettings] at hheld
    cases hlast : lastOf gpuFreqOf (steps ++ [.walkDown maxControl policy]) with
    | none => exact areAt_of_held hheld (fun _ => hinv'.noGpu hlast) fun hfalse => nomatch hfalse
    | some freq =>
      have heq := hinv'.gpu hdo freq hlast
      refine areAt_of_held hheld (fun hnan => ?_) fun _ => heq
      rw [Option.getD_some, (not_nan_of_eq heq).2] at hnan
      cases hnan

theorem run_inv {steps : List Step} {settings : Control → Double}
    (h : run p steps (initial settings) = .ok m) : Inv p steps m := by
  induction steps using List.reverseRecOn generalizing m with
  | nil =>
    cases h
    exact inv_initial settings
  | append_singleton steps s ih =>
    unfold run at h
    rw [foldlM_append] at h
    obtain ⟨m₁, hm₁, h⟩ := exists_of_bind_eq_ok h
    rw [foldlM_cons] at h
    obtain ⟨m₂, hm₂, h⟩ := exists_of_bind_eq_ok h
    cases h
    have hinv := ih hm₁
    cases s with
    | walkDown maxControl policy => exact (walkDown_inv hinv hm₂).1
    | walkUp sample =>
      cases hm₂
      refine ⟨⟨hinv.tracks.freq, hinv.tracks.uncore, hinv.tracks.gpu, hinv.tracks.fresh⟩,
        hinv.synced, ?_, ?_, ?_⟩
      · funext i
        simp [samplePlatform, hashAfter, lastOf_concat]
      · rw [lastOf_concat]
        exact hinv.noGpu
      · rw [lastOf_concat]
        exact hinv.gpu

/-- After each walk down with a real policy the controls are as the policy says for the regions that
the last walk up has sampled; the GPUs are at the last frequency that a policy has had. -/
theorem walkDown_inForce (p : Platform) (settings : Control → Double) (steps : List Step)
    (maxControl : ℕ → Except Exception Double) (policy : Policy) (m : Machine)
    (hrun : run p (steps ++ [.walkDown maxControl policy]) (initial settings) = .ok m)
    (hreal : policy.isAllNan = false) :
    InForce p (hashAfter p steps) policy
      ((lastOf gpuFreqOf (steps ++ [.walkDown maxControl policy])).getD .nan)
      p.gpuInitFreqMax p.gpuInitFreqMax m.pio.settings := by
  unfold run at hrun
  rw [foldlM_append] at hrun
  obtain ⟨m₁, hm₁, hm⟩ := exists_of_bind_eq_ok hrun
  rw [foldlM_cons] at hm
  obtain ⟨m₂, hm₂, hm⟩ := exists_of_bind_eq_ok hm
  cases hm
  exact (walkDown_inv (run_inv hm₁) hm₂).2 hreal

/-! ### A policy without a frequency of the GPUs -/

/-- The policy is in force after each walk down, and the GPUs are at their initial limits when it
has no frequency for them. -/
def FollowsPolicy (p : Platform) (settings : Control → Double) : Prop :=
  ∀ steps maxControl policy (m : Machine),
    run p (steps ++ [.walkDown maxControl policy]) (initial settings) = .ok m →
    policy.isAllNan = false →
    InForce p (hashAfter p steps) policy policy.freqGpuDefault p.gpuInitFreqMin p.gpuInitFreqMax
      m.pio.settings

/-- A machine with one frequency domain and GPUs. -/
def board : Platform where
  numFreqCtlDomain := 1
  coreFreqMin := .num 1
  coreFreqMax := .num 3
  uncoreInitMin := .num 1
  uncoreInitMax := .num 2
  doGpuCtl := true
  gpuInitFreqMin := .num 1
  gpuInitFreqMax := .num 3
  castOutOfRange _ := 0#64

/-- A policy with the frequency 1 for the region 5, and 2 for all others. -/
def oneRegion (freqGpuDefault : Double) : Policy :=
  ⟨.num 2, .nan, freqGpuDefault, [(.num 5, .num 1), (.nan, .nan)]⟩

/-- Two policies: the region that has been sampled is mapped. -/
theorem walkDown_inForce_board : ∃ m : Machine, InForce board (fun _ => 5#64) (oneRegion .nan)
    (.num 2) (.num 3) (.num 3) m.pio.settings := by
  have hrun : run board ([.walkDown (fun _ => .ok (.num 3)) (oneRegion (.num 2)),
      .walkUp fun _ => .num 5] ++ [.walkDown (fun _ => .ok (.num 3)) (oneRegion .nan)])
      (initial fun _ => .num 0) = .ok _ := rfl
  exact ⟨_, walkDown_inForce board _ _ _ _ _ hrun rfl⟩

/-- The GPUs stay at the frequency of the first policy. -/
theorem gpu_stays : ¬ FollowsPolicy board fun _ => .num 0 := by
  intro h
  have hrun : run board ([.walkDown (fun _ => .ok (.num 3)) (oneRegion (.num 2))] ++
      [.walkDown (fun _ => .ok (.num 3)) (oneRegion .nan)]) (initial fun _ => .num 0) =
      .ok _ := rfl
  have hgpu := ((h _ _ _ _ hrun rfl).gpu rfl).2
  revert hgpu
  decide

end Geopm.FrequencyMapAgent
