import Geopm.Agent.Governors
import Geopm.Lib.Fallible

/-!
# The agent that follows the activity of the CPUs

The agent requests frequencies of the cores and of the uncore in ranges that its policy narrows from
above or from below.  The range of the cores goes through the governor, which remembers it.

* `Range`, `Range.resolve` : the frequencies of a domain, and the range that a policy gives;
* `Constants`, `Agent`, `Sample` : the platform, the members of the agent, and what it samples;
* `validatePolicy`, `adjustPlatform` : the methods;
* `Right` : a policy is followed as it is;
* `right_iff` : a policy is followed exactly when the range that it gives the cores is within the
  bounds that the governor remembers;
* `along_right_iff` : and in a run, exactly when each range is within the one before it.
-/

namespace Geopm.CPUActivityAgent

open Governor
open List

/-! ### Ranges -/

/-- The minimum, efficient and maximum frequency of a domain. -/
structure Range where
  min : ℚ
  efficient : ℚ
  max : ℚ
  min_le_efficient : min ≤ efficient
  efficient_le_max : efficient ≤ max

/-- The efficient and maximum frequency that a policy resolves to. -/
structure Resolved where
  efficient : ℚ
  max : ℚ
deriving DecidableEq

/-- The range in `adjust_platform`: from the efficient frequency to the maximum, scaled down from
above for a `phi` over one half, and up from below for one under it. -/
def Range.resolve (r : Range) (phi : ℚ) : Resolved :=
  let range := r.max - r.efficient
  if phi > 1 / 2 then ⟨r.efficient, Max.max r.efficient (r.max - range * (phi - 1 / 2) / (1 / 2))⟩
  else if phi < 1 / 2 then
    ⟨Min.min r.max (r.efficient + range * (1 / 2 - phi) / (1 / 2)), r.max⟩
  else ⟨r.efficient, r.max⟩

namespace Range

variable {r : Range} {phi : ℚ}

/-- The range of a policy is within the frequencies of the domain. -/
theorem resolve_mem (r : Range) (phi : ℚ) :
    r.min ≤ (r.resolve phi).efficient ∧ (r.resolve phi).efficient ≤ (r.resolve phi).max ∧
      (r.resolve phi).max ≤ r.max := by
  have hmin := r.min_le_efficient
  have hmax := r.efficient_le_max
  have hrange : 0 ≤ r.max - r.efficient := sub_nonneg.mpr hmax
  rw [resolve]
  split_ifs with hgt hlt
  · have hnonneg : 0 ≤ (r.max - r.efficient) * (phi - 1 / 2) / (1 / 2) :=
      div_nonneg (mul_nonneg hrange (by linarith)) (by norm_num)
    exact ⟨hmin, le_max_left _ _, max_le hmax (by linarith)⟩
  · have hnonneg : 0 ≤ (r.max - r.efficient) * (1 / 2 - phi) / (1 / 2) :=
      div_nonneg (mul_nonneg hrange (by linarith)) (by norm_num)
    exact ⟨hmin.trans (le_min hmax (by linarith)), min_le_left _ _, le_rfl⟩
  · exact ⟨hmin, hmax, le_rfl⟩

end Range

/-! ### The agent -/

/-- What the agent reads from the platform: the frequencies of the cores and of the uncore, the
sticker frequency, the numbers of packages and of frequency domains, and the bandwidth at each uncore
frequency, in the order of the frequencies. -/
structure Constants where
  core : Range
  uncore : Range
  freqSticker : Double
  numPackage : ℕ
  numFreqCtlDomain : ℕ
  qmMaxRate : List (ℚ × ℚ)
  qmMaxRate_ne_nil : qmMaxRate ≠ []
  qmMaxRate_ne_zero : ∀ x ∈ qmMaxRate, x.2 ≠ 0

/-- What is sampled: the uncore frequency and the bandwidth of each package, and the scalability of
each frequency domain; `none` stands for NaN. -/
structure Sample where
  uncoreFreqStatus : ℕ → Option ℚ
  qmRate : ℕ → Option ℚ
  coreScal : ℕ → Option ℚ

/-- The members of the agent that `adjust_platform` changes, and the values that it adjusts the
uncore controls of a package to, if any. -/
structure Agent where
  governor : FrequencyGovernor
  resolvedCore : Resolved
  resolvedUncore : Resolved
  uncoreMinSetting : ℕ → ℚ
  uncoreMaxSetting : ℕ → ℚ
  uncoreAdjusted : ℕ → Option (ℚ × ℚ)
  uncoreFrequencyRequests : ℕ
  uncoreFrequencyClamped : ℕ
  coreBatchWrites : ℕ
  doWriteBatch : Bool

section Methods

variable (c : Constants)

/-- The agent after `init`. -/
def Agent.init : Agent where
  governor := .init (.num c.core.min) (.num c.core.max) c.freqSticker c.numFreqCtlDomain
  resolvedCore := ⟨0, 0⟩
  resolvedUncore := ⟨0, c.uncore.max⟩
  uncoreMinSetting := fun _ => -1
  uncoreMaxSetting := fun _ => -1
  uncoreAdjusted := fun _ => none
  uncoreFrequencyRequests := 0
  uncoreFrequencyClamped := 0
  coreBatchWrites := 0
  doWriteBatch := false

/-- `validate_policy` of `CPU_PHI`. -/
def validatePolicy (cpuPhi : Option ℚ) : Except Exception ℚ :=
  let phi := cpuPhi.getD (1 / 2)
  if phi < 0 ∨ 1 < phi then
    .error ⟨"CPUActivityAgent::validate_policy(): POLICY_CPU_PHI value out of range", [], .invalid⟩
  else .ok phi

/-- The entries before `upper_bound`; no frequency is greater than NaN. -/
def Constants.entriesUpTo (uncoreFreq : Option ℚ) : List (ℚ × ℚ) :=
  match uncoreFreq with
  | none => c.qmMaxRate
  | some freq => c.qmMaxRate.takeWhile fun x => decide (x.1 ≤ freq)

/-- The entry before `upper_bound`, or the first one. -/
def Constants.maxRate (uncoreFreq : Option ℚ) : ℚ × ℚ :=
  (c.entriesUpTo uncoreFreq).getLast?.getD (c.qmMaxRate.head c.qmMaxRate_ne_nil)

/-- `a / b`, which must not be a division by zero. -/
def divide (a b : ℚ) : Except Exception ℚ :=
  if b = 0 then .error ⟨"division by zero", [], .logic⟩ else .ok (a / b)

/-- The scalability of the uncore of a package. -/
def scalabilityUncore (sample : Sample) (domainIdx : ℕ) : Except Exception ℚ :=
  let entry := c.maxRate (sample.uncoreFreqStatus domainIdx)
  match sample.qmRate domainIdx with
  | none => .ok 1
  | some rate => if entry.2 ≠ 0 then divide rate entry.2 else .ok 1

/-- The request of the uncore of a package, before it is clamped. -/
def uncoreRequest (resolved : Resolved) (sample : Sample) (domainIdx : ℕ) : Except Exception ℚ :=
  (scalabilityUncore c sample domainIdx).map fun scalability =>
    resolved.efficient + (resolved.max - resolved.efficient) * scalability

/-- The request of the uncore, clamped to the range. -/
def Resolved.clamp (resolved : Resolved) (request : ℚ) : ℚ :=
  Min.min resolved.max (Max.max resolved.efficient request)

/-- The request of a frequency domain. -/
def coreRequest (resolved : Resolved) (sample : Sample) (domainIdx : ℕ) : ℚ :=
  resolved.efficient + (resolved.max - resolved.efficient) * (sample.coreScal domainIdx).getD 1

/-- The number that a finite double is. -/
def value : Double → ℚ
  | .num x => x
  | _ => 0

/-- Adjust the uncore controls of a package, if the request is not what they were set to last. -/
def adjustUncore (a : Agent) (domainIdx : ℕ) (request : ℚ) : Agent :=
  if request ≠ a.uncoreMinSetting domainIdx ∨ request ≠ a.uncoreMaxSetting domainIdx then
    { a with
      uncoreMinSetting := Function.update a.uncoreMinSetting domainIdx request
      uncoreMaxSetting := Function.update a.uncoreMaxSetting domainIdx request
      uncoreAdjusted := Function.update a.uncoreAdjusted domainIdx (some (request, request))
      uncoreFrequencyRequests := a.uncoreFrequencyRequests + 1
      doWriteBatch := true }
  else a

def adjustPlatform (a : Agent) (phi : ℚ) (sample : Sample) : Except Exception Agent := do
  let core := c.core.resolve phi
  let uncore := c.uncore.resolve phi
  let (coreMin, coreMax) ← a.governor.validatePolicy (.num core.efficient) (.num core.max)
  let (governor, _) ← a.governor.setFrequencyBounds coreMin coreMax
  let core : Resolved := ⟨value coreMin, value coreMax⟩
  let uncoreFreq ← (List.range c.numPackage).mapM (uncoreRequest c uncore sample)
  let uncoreFreqRequest := uncoreFreq.map uncore.clamp
  let coreFreqRequest := (List.range c.numFreqCtlDomain).map (coreRequest core sample)
  let (governor, _) ← governor.adjustPlatform (coreFreqRequest.map .num)
  let a : Agent := { a with
    governor := governor
    resolvedCore := core
    resolvedUncore := uncore
    uncoreAdjusted := fun _ => none
    uncoreFrequencyClamped := a.uncoreFrequencyClamped +
      uncoreFreq.countP fun req => decide (req > uncore.max ∨ req < uncore.efficient)
    coreBatchWrites := a.coreBatchWrites + if governor.doWriteBatch then 1 else 0
    doWriteBatch := false }
  .ok (uncoreFreqRequest.zipIdx.foldl (fun a x => adjustUncore a x.2 x.1) a)

end Methods

/-! ### What the steps do -/

section Steps

variable {c : Constants} {a a' : Agent} {phi : ℚ} {sample : Sample} {m M lo hi : ℚ}

/-- The entry for an uncore frequency is one of the map. -/
theorem maxRate_mem (c : Constants) (uncoreFreq : Option ℚ) : c.maxRate uncoreFreq ∈ c.qmMaxRate := by
  rw [Constants.maxRate]
  cases hlast : (c.entriesUpTo uncoreFreq).getLast? with
  | none => exact head_mem _
  | some entry =>
    have hmem := mem_of_getLast? hlast
    cases uncoreFreq with
    | none => exact hmem
    | some freq => exact takeWhile_subset _ hmem

theorem exists_scalabilityUncore (c : Constants) (sample : Sample) (i : ℕ) :
    ∃ x, scalabilityUncore c sample i = .ok x := by
  have hne := c.qmMaxRate_ne_zero _ (maxRate_mem c (sample.uncoreFreqStatus i))
  rw [scalabilityUncore]
  cases sample.qmRate i with
  | none => exact ⟨1, rfl⟩
  | some rate =>
    refine ⟨rate / (c.maxRate (sample.uncoreFreqStatus i)).2, ?_⟩
    simp only [divide]
    rw [if_pos hne, if_neg hne]

theorem exists_uncoreRequests (c : Constants) (resolved : Resolved) (sample : Sample)
    (is : List ℕ) : ∃ xs, is.mapM (uncoreRequest c resolved sample) = .ok xs := by
  induction is with
  | nil => exact ⟨[], rfl⟩
  | cons i is ih =>
    obtain ⟨xs, hxs⟩ := ih
    obtain ⟨x, hx⟩ := exists_scalabilityUncore c sample i
    refine ⟨(resolved.efficient + (resolved.max - resolved.efficient) * x) :: xs, ?_⟩
    rw [mapM_cons, hxs, uncoreRequest, hx]
    rfl

theorem clamp_mem {resolved : Resolved} (h : resolved.efficient ≤ resolved.max) (request : ℚ) :
    resolved.efficient ≤ resolved.clamp request ∧ resolved.clamp request ≤ resolved.max :=
  ⟨le_min h (le_max_left _ _), min_le_left _ _⟩

theorem foldl_adjustUncore (xs : List (ℚ × ℕ)) (a : Agent) :
    (xs.foldl (fun a x => adjustUncore a x.2 x.1) a).governor = a.governor ∧
      ∀ i y, (xs.foldl (fun a x => adjustUncore a x.2 x.1) a).uncoreAdjusted i = some y →
        a.uncoreAdjusted i = some y ∨ ∃ x ∈ xs, y = (x.1, x.1) := by
  induction xs generalizing a with
  | nil => exact ⟨rfl, fun _ _ => .inl⟩
  | cons x xs ih =>
    obtain ⟨hgovernor, hadjusted⟩ := ih (adjustUncore a x.2 x.1)
    have hstep : (adjustUncore a x.2 x.1).governor = a.governor ∧
        ∀ i y, (adjustUncore a x.2 x.1).uncoreAdjusted i = some y →
          a.uncoreAdjusted i = some y ∨ y = (x.1, x.1) := by
      rw [adjustUncore]
      split_ifs
      · refine ⟨rfl, fun i y hy => ?_⟩
        by_cases hi : i = x.2
        · simp only [hi, Function.update_self, Option.some.injEq] at hy
          exact .inr hy.symm
        · simp only [Function.update_of_ne hi] at hy
          exact .inl hy
      · exact ⟨rfl, fun _ _ => .inl⟩
    refine ⟨hgovernor.trans hstep.1, fun i y hy => ?_⟩
    rcases hadjusted i y hy with hy | ⟨z, hz, rfl⟩
    · exact (hstep.2 i y hy).imp_right fun heq => ⟨x, mem_cons_self, heq⟩
    · exact .inr ⟨z, mem_cons_of_mem _ hz, rfl⟩

/-- The bounds of a governor, and those of its platform, are numbers. -/
structure Bounds (c : Constants) (g : FrequencyGovernor) (m M : ℚ) : Prop where
  platFreqMin : g.platFreqMin = .num c.core.min
  platFreqMax : g.platFreqMax = .num c.core.max
  freqMin : g.freqMin = .num m
  freqMax : g.freqMax = .num M
  numControl : g.numControl = c.numFreqCtlDomain

@[simp] theorem lt_num (x y : ℚ) : (Double.num x).lt (.num y) = decide (x < y) := rfl

@[simp] theorem eq_num (x y : ℚ) : (Double.num x).eq (.num y) = decide (x = y) := by
  simp [Double.eq, Double.isNan, Double.unsigned]

variable {g : FrequencyGovernor}

/-- The governor cuts a range to the bounds that it remembers. -/
theorem validatePolicy_num (h : Bounds c g m M) (hle : lo ≤ hi) :
    g.validatePolicy (.num lo) (.num hi) = .ok (.num (max lo m), .num (min hi M)) := by
  simp only [FrequencyGovernor.validatePolicy, Double.isNan, h.freqMin, h.freqMax, lt_num,
    decide_eq_true_eq, Bool.false_eq_true, if_false, hle.not_gt]
  rw [max_def_lt, min_comm, min_def_lt]
  split_ifs <;> rfl

/-- A range within the platform is set, unless it is empty. -/
theorem setFrequencyBounds_num (h : Bounds c g m M) (hlo : c.core.min ≤ lo)
    (hhi : hi ≤ c.core.max) :
    (hi < lo ∧ ∃ e, g.setFrequencyBounds (.num lo) (.num hi) = .error e) ∨
      lo ≤ hi ∧ ∃ g' b, g.setFrequencyBounds (.num lo) (.num hi) = .ok (g', b) ∧
        Bounds c g' lo hi := by
  rw [FrequencyGovernor.setFrequencyBounds, h.platFreqMin, h.platFreqMax, h.freqMin, h.freqMax]
  simp only [lt_num, eq_num, hlo.not_gt, hhi.not_gt, decide_false, Bool.false_or, decide_eq_true_eq]
  rcases lt_or_ge hi lo with hempty | hle
  · exact .inl ⟨hempty, _, if_pos hempty⟩
  · refine .inr ⟨hle, ?_⟩
    rw [if_neg hle.not_gt]
    split_ifs with hsame
    · exact ⟨_, _, rfl, rfl, rfl, rfl, rfl, h.numControl⟩
    · simp only [Bool.or_eq_true, Bool.not_eq_true', decide_eq_false_iff_not, not_or, not_not] at hsame
      obtain ⟨rfl, rfl⟩ := hsame
      exact ⟨g, false, rfl, h⟩

theorem clamp_num (h : Bounds c g lo hi) (hle : lo ≤ hi) (x : ℚ) :
    ∃ q, g.clamp (.num x) = .num q ∧ lo ≤ q ∧ q ≤ hi := by
  simp only [FrequencyGovernor.clamp, h.freqMin, h.freqMax, lt_num, decide_eq_true_eq]
  split_ifs with habove hbelow
  · exact ⟨hi, rfl, hle, le_rfl⟩
  · exact ⟨lo, rfl, le_rfl, hle⟩
  · exact ⟨x, rfl, not_lt.mp hbelow, not_lt.mp habove⟩

theorem governor_adjustPlatform (h : Bounds c g lo hi) (hle : lo ≤ hi)
    (request : List ℚ) (hlength : request.length = c.numFreqCtlDomain) :
    ∃ g' actual, g.adjustPlatform (request.map .num) = .ok (g', actual) ∧ Bounds c g' lo hi ∧
      ∀ f ∈ g'.lastFreq, ∃ q, f = .num q ∧ lo ≤ q ∧ q ≤ hi := by
  have hcontrol : ¬ (request.map Double.num).length ≠ g.numControl := by
    rw [length_map, hlength, h.numControl, not_not]
  refine ⟨_, _, if_neg hcontrol, ⟨h.platFreqMin, h.platFreqMax, h.freqMin, h.freqMax, h.numControl⟩,
    fun f hf => ?_⟩
  obtain ⟨_, hx, rfl⟩ := mem_map.mp hf
  obtain ⟨x, -, rfl⟩ := mem_map.mp hx
  exact clamp_num h hle x

theorem adjustPlatform_spec (h : Bounds c a.governor m M) (phi : ℚ) (sample : Sample) :
    (min (c.core.resolve phi).max M < max (c.core.resolve phi).efficient m ∧
      ∃ e, adjustPlatform c a phi sample = .error e) ∨
    ∃ a', adjustPlatform c a phi sample = .ok a' ∧
      Bounds c a'.governor (max (c.core.resolve phi).efficient m) (min (c.core.resolve phi).max M) ∧
      (∀ f ∈ a'.governor.lastFreq, ∃ q, f = .num q ∧ max (c.core.resolve phi).efficient m ≤ q ∧
        q ≤ min (c.core.resolve phi).max M) ∧
      ∀ i y, a'.uncoreAdjusted i = some y → ∃ request, y =
        ((c.uncore.resolve phi).clamp request, (c.uncore.resolve phi).clamp request) := by
  obtain ⟨hmin, hle, hmax⟩ := c.core.resolve_mem phi
  have hvalidate := validatePolicy_num h hle
  rw [adjustPlatform]
  simp only [hvalidate]
  rcases setFrequencyBounds_num h (hmin.trans (le_max_left _ m))
      ((min_le_left _ M).trans hmax) with ⟨hempty, e, he⟩ | ⟨hne, g, b, hg, hbounds⟩
  · refine .inl ⟨hempty, e, ?_⟩
    simp only [bind, Except.bind, he]
  · right
    obtain ⟨uncoreFreq, huncore⟩ := exists_uncoreRequests c (c.uncore.resolve phi) sample
      (List.range c.numPackage)
    obtain ⟨g', actual, hadjust, hbounds', hall⟩ := governor_adjustPlatform hbounds hne
      ((List.range c.numFreqCtlDomain).map (coreRequest
        ⟨max (c.core.resolve phi).efficient m, min (c.core.resolve phi).max M⟩ sample))
      (by rw [length_map, length_range])
    simp only [bind, Except.bind, hg, huncore, value, hadjust]
    refine ⟨_, rfl, ?_⟩
    obtain ⟨hgovernor, hadjusted⟩ := foldl_adjustUncore
      (uncoreFreq.map (c.uncore.resolve phi).clamp).zipIdx _
    rw [hgovernor]
    refine ⟨hbounds', hall, fun i y hy => ?_⟩
    rcases hadjusted i y hy with hy | ⟨x, hx, rfl⟩
    · cases hy
    · obtain ⟨request, -, hrequest⟩ := mem_map.mp (fst_mem_of_mem_zipIdx hx)
      exact ⟨request, by rw [hrequest]⟩

end Steps

/-! ### Policies that are followed -/

/-- A frequency is in the range, which is within the frequencies of the domain. -/
def InRange (r : Range) (phi q : ℚ) : Prop :=
  (r.resolve phi).efficient ≤ q ∧ q ≤ (r.resolve phi).max ∧ r.min ≤ q ∧ q ≤ r.max

theorem inRange_of_mem {r : Range} {phi q : ℚ} (hmin : (r.resolve phi).efficient ≤ q)
    (hmax : q ≤ (r.resolve phi).max) : InRange r phi q := by
  obtain ⟨hlo, -, hhi⟩ := r.resolve_mem phi
  exact ⟨hmin, hmax, hlo.trans hmin, hmax.trans hhi⟩

/-- A call does not throw, the bounds of the cores are those of its policy, and the frequencies that
the controls are adjusted to are in the ranges of the policy. -/
def Right (c : Constants) (a : Agent) (phi : ℚ) (sample : Sample) : Prop :=
  ∃ a', adjustPlatform c a phi sample = .ok a' ∧
    a'.governor.freqMin = .num (c.core.resolve phi).efficient ∧
    a'.governor.freqMax = .num (c.core.resolve phi).max ∧
    (∀ f ∈ a'.governor.lastFreq, ∃ q, f = .num q ∧ InRange c.core phi q) ∧
    ∀ i y, a'.uncoreAdjusted i = some y → InRange c.uncore phi y.1 ∧ InRange c.uncore phi y.2

/-- The range of a policy for the cores is within the bounds that the governor remembers. -/
def Within (c : Constants) (a : Agent) (phi : ℚ) : Prop :=
  (Double.num (c.core.resolve phi).efficient).lt a.governor.freqMin = false ∧
    a.governor.freqMax.lt (.num (c.core.resolve phi).max) = false

section Runs

variable {c : Constants} {a : Agent} {phi : ℚ} {sample : Sample} {m M : ℚ}

theorem within_iff (h : Bounds c a.governor m M) :
    Within c a phi ↔ m ≤ (c.core.resolve phi).efficient ∧ (c.core.resolve phi).max ≤ M := by
  simp [Within, h.freqMin, h.freqMax]

/-- A policy is followed exactly when its range is within the bounds of the governor. -/
theorem right_iff (h : Bounds c a.governor m M) :
    Right c a phi sample ↔ Within c a phi := by
  obtain ⟨-, hle, -⟩ := c.core.resolve_mem phi
  rw [within_iff h]
  constructor
  · rintro ⟨a', ha', hmin, hmax, -⟩
    rcases adjustPlatform_spec h phi sample with ⟨-, e, he⟩ | ⟨a'', ha'', hbounds, -⟩
    · rw [he] at ha'
      cases ha'
    · obtain rfl := Except.ok.inj (ha'.symm.trans ha'')
      have hlo := Double.num.inj (hbounds.freqMin.symm.trans hmin)
      have hhi := Double.num.inj (hbounds.freqMax.symm.trans hmax)
      exact ⟨max_eq_left_iff.mp hlo, min_eq_left_iff.mp hhi⟩
  · rintro ⟨hm, hM⟩
    rcases adjustPlatform_spec h phi sample with ⟨hempty, -⟩ | ⟨a', ha', hbounds, hcore, huncore⟩
    · rw [max_eq_left hm, min_eq_left hM] at hempty
      exact absurd hle hempty.not_ge
    · rw [max_eq_left hm, min_eq_left hM] at hbounds hcore
      refine ⟨a', ha', hbounds.freqMin, hbounds.freqMax, fun f hf => ?_, fun i y hy => ?_⟩
      · obtain ⟨q, rfl, hlo, hhi⟩ := hcore f hf
        exact ⟨q, rfl, inRange_of_mem hlo hhi⟩
      · obtain ⟨request, rfl⟩ := huncore i y hy
        obtain ⟨hlo, hhi⟩ := clamp_mem (c.uncore.resolve_mem phi).2.1 request
        exact ⟨inRange_of_mem hlo hhi, inRange_of_mem hlo hhi⟩

theorem bounds_init (c : Constants) : Bounds c (Agent.init c).governor c.core.min c.core.max :=
  ⟨rfl, rfl, rfl, rfl, rfl⟩

end Runs

/-! ### Runs -/

/-- A policy, and what is sampled when the platform is adjusted to it. -/
structure Call where
  cpuPhi : Option ℚ
  sample : Sample

/-- The `phi` of a policy that is accepted. -/
def Call.phi (l : Call) : Option ℚ := (validatePolicy l.cpuPhi).toOption

/-- The agent after a call; a policy that is not accepted and a call that throws change nothing. -/
def next (c : Constants) (a : Agent) (l : Call) : Agent :=
  match validatePolicy l.cpuPhi >>= fun phi => adjustPlatform c a phi l.sample with
  | .ok a' => a'
  | .error _ => a

/-- A policy that is accepted is followed. -/
def Followed (c : Constants) (a : Agent) (l : Call) : Prop :=
  ∀ phi ∈ l.phi, Right c a phi l.sample

/-- The range of the second policy is within that of the first. -/
def Nested (r : Range) (phi psi : ℚ) : Prop :=
  (r.resolve phi).efficient ≤ (r.resolve psi).efficient ∧ (r.resolve psi).max ≤ (r.resolve phi).max

/-- Once `phi` is over one half it does not fall, and once it is under it does not rise. -/
def Outward (phi psi : ℚ) : Prop := (1 / 2 < phi → phi ≤ psi) ∧ (phi < 1 / 2 → psi ≤ phi)

theorem phi_mem {l : Call} {phi : ℚ} (h : phi ∈ l.phi) : 0 ≤ phi ∧ phi ≤ 1 := by
  rw [Call.phi, validatePolicy] at h
  split_ifs at h with hout
  · cases h
  · obtain rfl := Option.some.inj h
    rw [not_or, not_lt, not_lt] at hout
    exact hout

/-- The maximum and the efficient frequency of an accepted policy. -/
theorem resolve_eq {r : Range} {phi : ℚ} (h : 0 ≤ phi ∧ phi ≤ 1) :
    (r.resolve phi).max = r.max - (r.max - r.efficient) * (2 * max 0 (phi - 1 / 2)) ∧
      (r.resolve phi).efficient =
        r.efficient + (r.max - r.efficient) * (2 * max 0 (1 / 2 - phi)) := by
  have hrange : 0 ≤ r.max - r.efficient := sub_nonneg.mpr r.efficient_le_max
  rw [Range.resolve]
  split_ifs with hgt hlt
  · rw [max_eq_right (by linarith : (0 : ℚ) ≤ phi - 1 / 2),
      max_eq_left (by linarith : 1 / 2 - phi ≤ (0 : ℚ))]
    refine ⟨?_, by ring⟩
    rw [max_eq_right]
    · ring
    · nlinarith
  · rw [max_eq_left (by linarith : phi - 1 / 2 ≤ (0 : ℚ)),
      max_eq_right (by linarith : (0 : ℚ) ≤ 1 / 2 - phi)]
    refine ⟨by ring, ?_⟩
    rw [min_eq_right]
    · ring
    · nlinarith
  · obtain rfl : phi = 1 / 2 := le_antisymm (not_lt.mp hgt) (not_lt.mp hlt)
    norm_num

theorem nested_iff {r : Range} (hr : r.efficient < r.max) {phi psi : ℚ} (hphi : 0 ≤ phi ∧ phi ≤ 1)
    (hpsi : 0 ≤ psi ∧ psi ≤ 1) : Nested r phi psi ↔ Outward phi psi := by
  have hrange : 0 < (r.max - r.efficient) * 2 := by linarith
  obtain ⟨hmax, heff⟩ := resolve_eq (r := r) hphi
  obtain ⟨hmax', heff'⟩ := resolve_eq (r := r) hpsi
  have hover : (r.resolve psi).max ≤ (r.resolve phi).max ↔
      max 0 (phi - 1 / 2) ≤ max 0 (psi - 1 / 2) := by
    rw [hmax, hmax', sub_le_sub_iff_left, ← mul_assoc, ← mul_assoc, mul_le_mul_iff_right₀ hrange]
  have hunder : (r.resolve phi).efficient ≤ (r.resolve psi).efficient ↔
      max 0 (1 / 2 - phi) ≤ max 0 (1 / 2 - psi) := by
    rw [heff, heff', add_le_add_iff_left, ← mul_assoc, ← mul_assoc, mul_le_mul_iff_right₀ hrange]
  rw [Nested, Outward, hover, hunder, and_comm]
  refine and_congr ?_ ?_
  · rw [max_le_iff, and_iff_right (le_max_left _ _), le_max_iff]
    constructor
    · intro h hphi
      rcases h with h | h <;> linarith
    · intro h
      rcases lt_or_ge (1 / 2) phi with hlt | hge
      · exact .inr (by linarith [h hlt])
      · exact .inl (by linarith)
  · rw [max_le_iff, and_iff_right (le_max_left _ _), le_max_iff]
    constructor
    · intro h hphi
      rcases h with h | h <;> linarith
    · intro h
      rcases lt_or_ge phi (1 / 2) with hlt | hge
      · exact .inr (by linarith [h hlt])
      · exact .inl (by linarith)

/-- An interval that contains another one. -/
def Contains (outer inner : Resolved) : Prop :=
  outer.efficient ≤ inner.efficient ∧ inner.max ≤ outer.max

section Runs

variable {c : Constants} {a : Agent} {m M : ℚ}

/-- From a governor with the given bounds, the policies are followed exactly when each range
contains the next one. -/
theorem along_followed_iff (h : Bounds c a.governor m M) (calls : List Call) :
    Lts.Along (Followed c) (next c) a calls ↔
      List.IsChain Contains (⟨m, M⟩ :: (calls.filterMap Call.phi).map c.core.resolve) := by
  induction calls generalizing a m M with
  | nil => simp [Lts.Along]
  | cons l calls ih =>
    change Followed c a l ∧ _ ↔ _
    cases hphi : validatePolicy l.cpuPhi with
    | error e =>
      -- the policy is not accepted
      have hnone : l.phi = none := by rw [Call.phi, hphi]; rfl
      have hnext : next c a l = a := by rw [next, hphi]; rfl
      have hfollowed : Followed c a l := by
        intro phi hmem
        rw [hnone] at hmem
        cases hmem
      rw [filterMap_cons_none hnone, hnext, ← ih h]
      exact and_iff_right hfollowed
    | ok phi =>
      have hsome : l.phi = some phi := by rw [Call.phi, hphi]; rfl
      have hfollowed : Followed c a l ↔ Contains ⟨m, M⟩ (c.core.resolve phi) := by
        refine Iff.trans ⟨fun hl => hl phi hsome, fun hright phi' hphi' => ?_⟩
          ((right_iff h).trans (within_iff h))
        obtain rfl := Option.some.inj (hsome.symm.trans hphi')
        exact hright
      rw [filterMap_cons_some hsome, map_cons, isChain_cons_cons, hfollowed]
      refine and_congr_right fun hcontains => ih ?_
      -- the governor remembers the range of this policy
      rcases adjustPlatform_spec h phi l.sample with ⟨hempty, -⟩ | ⟨a', ha', hbounds, -⟩
      · rw [max_eq_left hcontains.1, min_eq_left hcontains.2] at hempty
        exact absurd (c.core.resolve_mem phi).2.1 hempty.not_ge
      · rw [max_eq_left hcontains.1, min_eq_left hcontains.2] at hbounds
        have hnext : next c a l = a' := by
          rw [next, hphi]
          change (match adjustPlatform c a phi l.sample with | .ok a' => a' | .error _ => a) = a'
          rw [ha']
        rw [hnext]
        exact hbounds

/-- The accepted policies of a run are all followed exactly when the cores have one frequency, or no
policy takes back what one before it has narrowed. -/
theorem along_right_iff (c : Constants) (calls : List Call) :
    Lts.Along (Followed c) (next c) (Agent.init c) calls ↔
      c.core.efficient = c.core.max ∨ List.IsChain Outward (calls.filterMap Call.phi) := by
  have hplatform : ∀ r ∈ ((calls.filterMap Call.phi).map c.core.resolve).head?,
      Contains ⟨c.core.min, c.core.max⟩ r := by
    intro r hr
    obtain ⟨phi, -, rfl⟩ := mem_map.mp (mem_of_mem_head? hr)
    obtain ⟨hmin, -, hmax⟩ := c.core.resolve_mem phi
    exact ⟨hmin, hmax⟩
  have haccepted : ∀ phi ∈ calls.filterMap Call.phi, 0 ≤ phi ∧ phi ≤ 1 := by
    intro phi hphi
    obtain ⟨l, -, hl⟩ := mem_filterMap.mp hphi
    exact phi_mem hl
  rw [along_followed_iff (bounds_init c), isChain_cons, and_iff_right hplatform,
    isChain_map]
  rcases c.core.efficient_le_max.eq_or_lt with heq | hlt
  · have hpoint : ∀ phi, c.core.resolve phi = ⟨c.core.max, c.core.max⟩ := by
      intro phi
      simp [Range.resolve, heq]
    refine ⟨fun _ => .inl heq, fun _ => (pairwise_of_forall fun phi psi => ?_).isChain⟩
    rw [hpoint phi, hpoint psi]
    exact ⟨le_rfl, le_rfl⟩
  · constructor
    · exact fun hchain => .inr (hchain.imp_of_mem_imp fun phi psi hphi hpsi =>
        (nested_iff hlt (haccepted phi hphi) (haccepted psi hpsi)).mp)
    · rintro (heq | hchain)
      · exact absurd heq hlt.ne
      · exact hchain.imp_of_mem_imp fun phi psi hphi hpsi =>
          (nested_iff hlt (haccepted phi hphi) (haccepted psi hpsi)).mpr

end Runs

/-- A platform with frequencies from one to three, of which two is efficient. -/
def constants : Constants where
  core := ⟨1, 2, 3, by decide, by decide⟩
  uncore := ⟨1, 2, 3, by decide, by decide⟩
  freqSticker := .num 3
  numPackage := 1
  numFreqCtlDomain := 2
  qmMaxRate := [(1, 10), (2, 20)]
  qmMaxRate_ne_nil := by decide
  qmMaxRate_ne_zero := by decide

/-- A sample without values. -/
def unsampled : Sample := ⟨fun _ => none, fun _ => none, fun _ => none⟩

/-- A policy that is raised and lowered again is not followed the second time. -/
theorem not_along_right :
    ¬ Lts.Along (Followed constants) (next constants) (Agent.init constants)
      [⟨some 1, unsampled⟩, ⟨none, unsampled⟩] := by
  rw [along_followed_iff (bounds_init constants)]
  intro hchain
  have hphis : [Call.mk (some 1) unsampled, ⟨none, unsampled⟩].filterMap Call.phi = [1, 1 / 2] := by
    decide +kernel
  rw [hphis] at hchain
  obtain ⟨-, hsecond⟩ := isChain_cons_cons.mp hchain
  obtain ⟨⟨-, hmax⟩, -⟩ := isChain_cons_cons.mp hsecond
  exact absurd hmax (by decide +kernel)

end Geopm.CPUActivityAgent
