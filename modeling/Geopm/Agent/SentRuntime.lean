import Geopm.Agent.PowerBalancerLeaf

/-!
# The runtime that is sent up

When the runtimes of all packages are stable, a leaf sends up the largest of them.  The runtime of a
package is recorded as long as it is not stable, so that the one that made it stable is left out.

* `Tracked` : a leaf, and the sample of each package when its runtime became stable; `Call` : the
  calls of the controller;
* `Tracked.Right` : the runtime that is sent is the largest of these samples;
* `Tracked.Steady` : a runtime that makes a sample stable does not change it;
* `Recorded` : what is recorded is then the stable sample; `Recorded.next` : every steady call keeps
  this;
* `right_of_steady` : in runs whose calls are steady, the runtimes that are sent are right.
-/

namespace Geopm.PowerBalancerAgent

open Pio (Value Agg)
open Prog LeafRole PowerBalancer

variable {numDomain : ℕ}

/-- The calls of the controller. -/
inductive Call (numDomain : ℕ) where
  | adjustPlatform (policy : Policy) (now : Fin numDomain → ℚ)
  | samplePlatform (readings : Fin numDomain → Reading)

/-- A leaf, and the sample of each package when its runtime became stable last. -/
structure Tracked (numDomain : ℕ) where
  role : LeafRole numDomain
  stable : Fin numDomain → Value := fun _ => none

namespace Tracked

variable (t : Tracked numDomain)

/-- What is recorded after `sample_platform` has led to `s`. -/
def after (s : LeafRole numDomain) : Tracked numDomain where
  role := s
  stable := fun i =>
    if t.role.currentStep = .measureRuntime ∧ (t.role.packages i).isStepComplete = false ∧
        (s.packages i).isStepComplete = true then
      (s.packages i).balancer.runtimeSample
    else t.stable i

/-- A call of the controller. -/
def next (t : Tracked numDomain) : Call numDomain → Option (Tracked numDomain)
  | .adjustPlatform policy now =>
    match adjustPlatform policy now t.role with
    | .ok _ s => some { t with role := s }
    | .error _ _ => none
  | .samplePlatform readings =>
    match samplePlatform readings t.role with
    | .ok _ s => some (t.after s)
    | .error _ _ => none

/-- When the step of measuring runtimes is reported to be complete, each package has had a stable
sample, and the runtime that is sent is the largest of them. -/
def Right (readings : Fin numDomain → Reading) : Prop :=
  ∀ sample s, samplePlatform readings t.role = .ok (sample, true) s →
    t.role.currentStep = .measureRuntime →
    ∃ runtime : Fin numDomain → ℚ, (∀ i, (t.after s).stable i = some (runtime i)) ∧
      ∃ largest, sample.maxEpochRuntime = some largest ∧ IsGreatest (Set.range runtime) largest

end Tracked

/-- The reading is a runtime that the package takes into account. -/
def Package.measures (p : Package) (reading : Reading) : Bool :=
  p.isActive reading && accepts reading.now reading.balancedEpochRuntime p.balancer

/-- The reading makes the sample of the package stable. -/
def Package.becomesStable (p : Package) (reading : Reading) : Bool :=
  p.measures reading && stabilizes reading.balancedEpochRuntime p.balancer

/-- While runtimes are measured, one that makes a sample stable does not change the sample of the
package; and when all of them are stable, they are not all negative. -/
def Tracked.Steady (t : Tracked numDomain) : Call numDomain → Prop
  | .adjustPlatform _ _ => True
  | .samplePlatform readings =>
    t.role.currentStep = .measureRuntime →
      (∀ i, (t.role.packages i).becomesStable (readings i) = true → (t.role.packages i).runtime =
        Agg.median.apply (taken (readings i).balancedEpochRuntime (t.role.packages i).balancer)) ∧
      ((∀ i, (t.role.packages i).isStepComplete = true ∨
          (t.role.packages i).becomesStable (readings i) = true) →
        ∃ i runtime, (t.role.packages i).runtime = some runtime ∧ 0 ≤ runtime)

/-- The calls of a leaf. -/
def leafCalls (numDomain : ℕ) : Lts (Tracked numDomain) (Call numDomain) := .ofNext Tracked.next

/-! ### The packages -/

section Packages

variable {p p' : Package} {reading : Reading}

/-- A call of the balancer leaves the rest of the package as it is. -/
theorem onBalancer_eq_ok {α : Type} {call : EStateM Exception PowerBalancer α} {a : α}
    (h : onBalancer call p = .ok a p') :
    ∃ b, call p.balancer = .ok a b ∧ p' = { p with balancer := b } := by
  exact zoom_eq_ok h

theorem isActive_incomplete (h : p.isActive reading = true) : p.isStepComplete = false := by
  unfold Package.isActive at h
  simp only [Bool.and_eq_true, Bool.not_eq_true'] at h
  exact h.2

theorem whenActive_eq_ok {update : EStateM Exception Package Unit}
    (h : whenActive reading update p = .ok () p') :
    ∃ q, p' = { q with lastEpochCount := reading.epochCount } ∧
      (p.isActive reading = false ∧ q = p ∨
        p.isActive reading = true ∧ update p = .ok () q) := by
  unfold whenActive at h
  change ((if p.isActive reading = true then update else pure ()) >>= fun _ => _) p = _ at h
  obtain ⟨_, q, hq, hrest⟩ := exists_of_bind_eq_ok h
  cases hrest
  refine ⟨q, rfl, ?_⟩
  cases hactive : p.isActive reading with
  | false =>
    rw [hactive, if_neg Bool.false_ne_true] at hq
    cases hq
    exact .inl ⟨rfl, rfl⟩
  | true =>
    rw [hactive, if_pos rfl] at hq
    exact .inr ⟨rfl, hq⟩

/-- **`MeasureRuntimeStep::sample_platform`** for one package. -/
theorem measureRuntime_eq_ok (hs : Sound p.balancer)
    (h : measureRuntime reading p = .ok () p') :
    Sound p'.balancer ∧
      p'.isStepComplete = (p.isStepComplete || p.becomesStable reading) ∧
      (p'.isStepComplete = true → p'.runtime = p.runtime) ∧
      (p.measures reading = true → p'.balancer.runtimeSample =
          Agg.median.apply (taken reading.balancedEpochRuntime p.balancer) ∧
        (p'.isStepComplete = false → p'.runtime = p'.balancer.runtimeSample)) := by
  obtain ⟨q, rfl, ⟨hidle, rfl⟩ | ⟨hactive, hq⟩⟩ := whenActive_eq_ok h
  · have hnot : q.measures reading = false := by simp [Package.measures, hidle]
    unfold Package.becomesStable
    rw [hnot, Bool.false_and, Bool.or_false]
    exact ⟨hs, rfl, fun _ => rfl, fun h => absurd h Bool.false_ne_true⟩
  have hincomplete := isActive_incomplete hactive
  obtain ⟨stable, t, hcall, hrest⟩ := exists_of_bind_eq_ok hq
  cases hrest
  obtain ⟨b, hb, rfl⟩ := onBalancer_eq_ok hcall
  obtain ⟨hsound, hresult, hsample⟩ := isRuntimeStable_eq_ok hs hb
  unfold Package.becomesStable Package.measures
  rw [hincomplete, Bool.false_or, hactive, Bool.true_and, ← hresult]
  cases stable with
  | true =>
    refine ⟨hsound, rfl, fun _ => rfl, fun h => ⟨hsample h, fun hfalse => ?_⟩⟩
    exact absurd hfalse.symm Bool.false_ne_true
  | false =>
    refine ⟨hsound, rfl, fun htrue => ?_, fun h => ⟨hsample h, fun _ => rfl⟩⟩
    exact absurd htrue Bool.false_ne_true

theorem reduceLimit_sound {maxPkgPowerSetting : ℚ} (hs : Sound p.balancer)
    (h : reduceLimit maxPkgPowerSetting reading p = .ok () p') : Sound p'.balancer := by
  obtain ⟨q, rfl, ⟨-, rfl⟩ | ⟨-, hq⟩⟩ := whenActive_eq_ok h
  · exact hs
  obtain ⟨met, t, hmet, hq⟩ := exists_of_bind_eq_ok hq
  obtain ⟨slack, t', hslack, hrest⟩ := exists_of_bind_eq_ok hq
  cases hrest
  have ht : Sound t.balancer := by
    unfold isPackageMet at hmet
    change (if p.isOutOfBounds = true then _ else _ : EStateM Exception Package Bool) p = _ at hmet
    cases hbounds : p.isOutOfBounds with
    | true =>
      rw [hbounds, if_pos rfl] at hmet
      cases hmet
      exact hs
    | false =>
      rw [hbounds, if_neg Bool.false_ne_true] at hmet
      obtain ⟨b, hb, rfl⟩ := onBalancer_eq_ok hmet
      exact hs.isTargetMet hb
  obtain ⟨b, hb, rfl⟩ := onBalancer_eq_ok hslack
  exact ht.powerSlack hb

theorem setLimit_eq_ok {now : ℚ} {limit : Value} {written : Bool}
    (h : setLimit now limit p = .ok written p') :
    (Sound p.balancer → Sound p'.balancer) ∧ p'.isStepComplete = p.isStepComplete ∧
      p'.runtime = p.runtime := by
  unfold setLimit at h
  change (if limit.ne p.actualLimit = true then _ else _ : EStateM Exception Package Bool) p = _ at h
  by_cases hne : limit.ne p.actualLimit = true
  · rw [if_pos hne] at h
    cases h
    exact ⟨fun hs => hs.powerLimitAdjusted limit, rfl, rfl⟩
  · rw [if_neg hne] at h
    cases h
    exact ⟨id, rfl, rfl⟩

theorem writeLimit_eq_ok {minPkgPowerSetting now : ℚ} {written : Bool}
    (h : writeLimit minPkgPowerSetting now p = .ok written p') :
    (Sound p.balancer → Sound p'.balancer) ∧ p'.isStepComplete = p.isStepComplete ∧
      p'.runtime = p.runtime := by
  unfold writeLimit at h
  change (if p.balancer.powerLimit ≠ none ∧ p.balancer.powerLimit ≠ some 0 then
    if p.balancer.powerLimit.lt (some minPkgPowerSetting) = true then _ else _ else _ :
    EStateM Exception Package Bool) p = _ at h
  by_cases hrequest : p.balancer.powerLimit ≠ none ∧ p.balancer.powerLimit ≠ some 0
  · rw [if_pos hrequest] at h
    by_cases hlow : p.balancer.powerLimit.lt (some minPkgPowerSetting) = true
    · rw [if_pos hlow] at h
      exact setLimit_eq_ok (p := { p with isOutOfBounds := true }) h
    · rw [if_neg hlow] at h
      exact setLimit_eq_ok h
  · rw [if_neg hrequest] at h
    cases h
    exact ⟨id, rfl, rfl⟩

end Packages

/-! ### Calls that adjust the platform -/

/-- The balancers stay sound; and a step of measuring runtimes that is complete for a package was so
before, with the same runtime. -/
structure Follows (s s' : LeafRole numDomain) : Prop where
  sound : (∀ i, Sound (s.packages i).balancer) → ∀ i, Sound (s'.packages i).balancer
  complete : s'.currentStep = .measureRuntime → ∀ i, (s'.packages i).isStepComplete = true →
    s.currentStep = .measureRuntime ∧ (s.packages i).isStepComplete = true ∧
      (s'.packages i).runtime = (s.packages i).runtime

section Adjust

variable {s s' s'' : LeafRole numDomain}

theorem Follows.of_eq (hpackages : s'.packages = s.packages) (hstep : s'.stepCount = s.stepCount) :
    Follows s s' := by
  refine ⟨fun h => hpackages ▸ h, fun hmeasure i hi => ?_⟩
  unfold LeafRole.currentStep at hmeasure ⊢
  rw [hpackages] at hi ⊢
  exact ⟨hstep ▸ hmeasure, hi, rfl⟩

theorem Follows.trans (h : Follows s s') (h' : Follows s' s'') : Follows s s'' := by
  refine ⟨fun hs => h'.sound (h.sound hs), fun hmeasure i hi => ?_⟩
  obtain ⟨hmeasure', hi', hruntime'⟩ := h'.complete hmeasure i hi
  obtain ⟨hmeasure'', hi'', hruntime⟩ := h.complete hmeasure' i hi'
  exact ⟨hmeasure'', hi'', hruntime'.trans hruntime⟩

theorem updatePolicy_follows {sample : Sample} (h : updatePolicy sample s = .ok () s') :
    Follows s s' := by
  obtain ⟨_, _, hget, h⟩ := exists_of_bind_eq_ok h
  cases hget
  cases hstep : s.currentStep with
  | sendDownLimit =>
    rw [hstep] at h
    cases h
    exact .of_eq rfl rfl
  | measureRuntime =>
    rw [hstep] at h
    cases h
    exact .of_eq rfl rfl
  | reduceLimit =>
    rw [hstep] at h
    obtain ⟨slack, t, hslack, hrest⟩ := exists_of_bind_eq_ok h
    obtain ⟨-, rfl⟩ := ret_eq_ok hslack
    cases hrest
    exact .of_eq rfl rfl

theorem receivePolicy_follows {inPolicy : Policy} (h : receivePolicy inPolicy s = .ok () s') :
    Follows s s' := by
  unfold receivePolicy at h
  change (if s.isSingleNode = true then
    if s.isFirstPolicy = true then _ else if s.areStepsComplete = true then _ else _
    else _ : EStateM Exception (LeafRole numDomain) Unit) s = _ at h
  by_cases hsingle : s.isSingleNode = true
  · rw [if_pos hsingle] at h
    by_cases hfirst : s.isFirstPolicy = true
    · rw [if_pos hfirst] at h
      cases h
      exact .of_eq rfl rfl
    rw [if_neg hfirst] at h
    by_cases hcomplete : s.areStepsComplete = true
    · rw [if_pos hcomplete] at h
      obtain ⟨_, t, hupdate, hrest⟩ := exists_of_bind_eq_ok h
      cases hrest
      exact (updatePolicy_follows hupdate).trans (.of_eq rfl rfl)
    · rw [if_neg hcomplete] at h
      cases h
      exact .of_eq rfl rfl
  · rw [if_neg hsingle] at h
    cases h
    exact .of_eq rfl rfl

/-- A step that has just been entered is not one of measuring runtimes that is complete. -/
theorem Follows.of_not_complete (hsound : (∀ i, Sound (s.packages i).balancer) →
      ∀ i, Sound (s'.packages i).balancer)
    (hnot : s'.currentStep = .measureRuntime → ∀ i, (s'.packages i).isStepComplete = false) :
    Follows s s' := by
  refine ⟨hsound, fun hmeasure i hi => ?_⟩
  rw [hnot hmeasure i] at hi
  cases hi

theorem resetLimit_follows (h : resetLimit s = .ok () s') : Follows s s' := by
  obtain ⟨_, _, hget, h⟩ := exists_of_bind_eq_ok h
  cases hget
  obtain ⟨pkgLimit, t, hret, hrest⟩ := exists_of_bind_eq_ok h
  obtain ⟨-, rfl⟩ := ret_eq_ok hret
  cases hrest
  refine .of_not_complete (fun _ i => sound_setPowerCap _ _) fun hmeasure => ?_
  cases hmeasure

theorem enterSendDownLimit_eq_ok {policy : Policy}
    (h : enterSendDownLimit policy s = .ok () s') :
    s'.stepCount = s.stepCount ∧ ∀ i, Sound (s'.packages i).balancer := by
  obtain ⟨_, _, hget, h⟩ := exists_of_bind_eq_ok h
  cases hget
  obtain ⟨⟨even, slackPower⟩, t, hret, h⟩ := exists_of_bind_eq_ok h
  obtain ⟨-, rfl⟩ := ret_eq_ok hret
  obtain ⟨_, t', hloop, hrest⟩ := exists_of_bind_eq_ok h
  cases hrest
  obtain ⟨hframe, hbody⟩ := forPackages_eq_ok hloop
  refine ⟨by rw [hframe]; rfl, fun i => ?_⟩
  obtain ⟨_, hi⟩ := hbody i
  obtain ⟨_, _, hget, hi⟩ := exists_of_bind_eq_ok hi
  cases hget
  obtain ⟨cap, q, hret, hrest⟩ := exists_of_bind_eq_ok hi
  obtain ⟨-, rfl⟩ := ret_eq_ok hret
  injection hrest with _ hpackage
  show Sound (t'.packages i).balancer
  rw [← hpackage]
  exact sound_setPowerCap _ _

theorem enterStep_eq_ok {policy : Policy} (h : enterStep policy s = .ok () s') :
    s'.stepCount = s.stepCount ∧
      ((∀ i, Sound (s.packages i).balancer) → ∀ i, Sound (s'.packages i).balancer) ∧
      (s.currentStep = .measureRuntime → s' = s) := by
  obtain ⟨_, _, hget, h⟩ := exists_of_bind_eq_ok h
  cases hget
  cases hstep : s.currentStep with
  | sendDownLimit =>
    rw [hstep] at h
    obtain ⟨hcount, hsound⟩ := enterSendDownLimit_eq_ok h
    exact ⟨hcount, fun _ => hsound, fun h => by cases h⟩
  | measureRuntime =>
    rw [hstep] at h
    cases h
    exact ⟨rfl, id, fun _ => rfl⟩
  | reduceLimit =>
    rw [hstep] at h
    cases h
    exact ⟨rfl, fun hs i => ⟨(hs i).holds, (hs i).vec⟩, fun h => by cases h⟩

theorem advanceStep_follows (h : advanceStep s = .ok () s') : Follows s s' := by
  obtain ⟨_, t, hmodify, h⟩ := exists_of_bind_eq_ok h
  cases hmodify
  set t := setStepsComplete false { s with stepCount := s.stepCount + 1 } with ht
  change (if t.policy.stepCount.ne (some (t.stepCount : ℚ)) = true then _ else enterStep t.policy :
    EStateM Exception (LeafRole numDomain) Unit) t = _ at h
  by_cases hsync : t.policy.stepCount.ne (some (t.stepCount : ℚ)) = true
  · rw [if_pos hsync] at h
    cases h
  rw [if_neg hsync] at h
  obtain ⟨hcount, hsound, hmeasure⟩ := enterStep_eq_ok h
  refine .of_not_complete hsound fun hstep i => ?_
  have hstep' : t.currentStep = .measureRuntime := by
    unfold LeafRole.currentStep at hstep ⊢
    rw [← hcount]
    exact hstep
  rw [hmeasure hstep', ht]
  rfl

theorem applyPolicy_follows (h : applyPolicy s = .ok () s') : Follows s s' := by
  change (if s.policy.cpuPowerLimit.ne (some 0) = true then resetLimit
    else if s.policy.stepCount.ne (some (s.stepCount : ℚ)) = true then advanceStep
    else pure () : EStateM Exception (LeafRole numDomain) Unit) s = _ at h
  by_cases hlimit : s.policy.cpuPowerLimit.ne (some 0) = true
  · rw [if_pos hlimit] at h
    exact resetLimit_follows h
  rw [if_neg hlimit] at h
  by_cases hnext : s.policy.stepCount.ne (some (s.stepCount : ℚ)) = true
  · rw [if_pos hnext] at h
    exact advanceStep_follows h
  · rw [if_neg hnext] at h
    cases h
    exact .of_eq rfl rfl

/-- **`adjust_platform`** completes no measurement. -/
theorem adjustPlatform_follows {policy : Policy} {now : Fin numDomain → ℚ} {written : Bool}
    (h : adjustPlatform policy now s = .ok written s') : Follows s s' := by
  obtain ⟨_, t, hreceive, h⟩ := exists_of_bind_eq_ok h
  obtain ⟨_, t', happly, h⟩ := exists_of_bind_eq_ok h
  obtain ⟨_, _, hget, h⟩ := exists_of_bind_eq_ok h
  cases hget
  obtain ⟨_, t'', hloop, hrest⟩ := exists_of_bind_eq_ok h
  cases hrest
  obtain ⟨hframe, hbody⟩ := forPackages_eq_ok hloop
  refine ((receivePolicy_follows hreceive).trans (applyPolicy_follows happly)).trans
    ⟨fun hs i => ?_, fun hmeasure i hi => ?_⟩
  · obtain ⟨_, hi⟩ := hbody i
    exact (writeLimit_eq_ok hi).1 (hs i)
  · obtain ⟨_, hwrite⟩ := hbody i
    obtain ⟨-, hcomplete, hruntime⟩ := writeLimit_eq_ok hwrite
    have hmeasure' : t'.currentStep = .measureRuntime := by
      rw [hframe] at hmeasure
      exact hmeasure
    exact ⟨hmeasure', hcomplete.symm.trans hi, hruntime⟩

end Adjust

/-! ### Calls that sample the platform -/

section Sample

variable {s s' : LeafRole numDomain} {readings : Fin numDomain → Reading}

/-- What `sample_platform` has returned. -/
theorem samplePlatform_eq_ok {sample : Sample} {result : Bool}
    (h : samplePlatform readings s = .ok (sample, result) s') :
    ∃ t, sampleStep readings s = .ok () t ∧ s' = keepSample t ∧ sample = makeSample t ∧
      result = t.areStepsComplete := by
  obtain ⟨_, t, hstep, hrest⟩ := exists_of_bind_eq_ok h
  cases hrest
  exact ⟨t, hstep, rfl, rfl, rfl⟩

@[simp] theorem keepSample_packages (s : LeafRole numDomain) :
    (keepSample s).packages = s.packages := by
  unfold keepSample
  split_ifs <;> rfl

@[simp] theorem keepSample_currentStep (s : LeafRole numDomain) :
    (keepSample s).currentStep = s.currentStep := by
  unfold keepSample
  split_ifs <;> rfl

/-- **`sample_platform` of the current step** keeps the step; what it does while runtimes are
measured is what it does for each package. -/
theorem sampleStep_eq_ok (hs : ∀ i, Sound (s.packages i).balancer)
    (h : sampleStep readings s = .ok () s') :
    s'.currentStep = s.currentStep ∧ (∀ i, Sound (s'.packages i).balancer) ∧
      (s.currentStep = .measureRuntime →
        ∀ i, measureRuntime (readings i) (s.packages i) = .ok () (s'.packages i)) := by
  obtain ⟨_, _, hget, h⟩ := exists_of_bind_eq_ok h
  cases hget
  cases hstep : s.currentStep with
  | sendDownLimit =>
    rw [hstep] at h
    cases h
    exact ⟨hstep, hs, fun h => by cases h⟩
  | measureRuntime =>
    rw [hstep] at h
    obtain ⟨_, t, hloop, hrest⟩ := exists_of_bind_eq_ok h
    cases hrest
    obtain ⟨hframe, hbody⟩ := forPackages_eq_ok hloop
    refine ⟨by rw [hframe]; exact hstep, fun i => ?_, fun _ i => ?_⟩
    · obtain ⟨_, hi⟩ := hbody i
      exact (measureRuntime_eq_ok (hs i) hi).1
    · obtain ⟨_, hi⟩ := hbody i
      exact hi
  | reduceLimit =>
    rw [hstep] at h
    obtain ⟨_, t, hloop, hrest⟩ := exists_of_bind_eq_ok h
    cases hrest
    obtain ⟨hframe, hbody⟩ := forPackages_eq_ok hloop
    refine ⟨by rw [hframe]; exact hstep, fun i => ?_, fun h => by cases h⟩
    obtain ⟨_, hi⟩ := hbody i
    exact reduceLimit_sound (hs i) hi

theorem exists_foldl_max {ι : Type} (f : ι → ℚ) (is : List ι) (a : ℚ) :
    ∃ m, is.foldl (fun result i => Value.max result (some (f i))) (some a) = some m ∧
      a ≤ m ∧ (∀ i ∈ is, f i ≤ m) ∧ (m = a ∨ ∃ i, f i = m) := by
  induction is generalizing a with
  | nil => exact ⟨a, rfl, le_rfl, fun i hi => absurd hi List.not_mem_nil, .inl rfl⟩
  | cons i is ih =>
    obtain ⟨m, hfold, hle, hall, hmem⟩ := ih (max a (f i))
    refine ⟨m, ?_, (le_max_left _ _).trans hle, fun j hj => ?_, ?_⟩
    · rw [List.foldl_cons, Pio.Value.max_some]
      exact hfold
    · obtain rfl | hj := List.mem_cons.mp hj
      · exact (le_max_right _ _).trans hle
      · exact hall j hj
    · obtain rfl | hmem := hmem
      · obtain hmax | hmax := max_choice a (f i)
        · exact .inl hmax
        · exact .inr ⟨i, hmax.symm⟩
      · exact .inr hmem

theorem foldl_max {f : Fin numDomain → ℚ} (h : ∃ i, 0 ≤ f i) :
    ∃ m, (List.finRange numDomain).foldl (fun result i => Value.max result (some (f i))) (some 0) =
      some m ∧ IsGreatest (Set.range f) m := by
  obtain ⟨m, hfold, hnonneg, hall, hmem⟩ := exists_foldl_max f (List.finRange numDomain) 0
  obtain ⟨i, hi⟩ := h
  refine ⟨m, hfold, ?_, ?_⟩
  · obtain rfl | hmem := hmem
    · exact ⟨i, le_antisymm (hall i (List.mem_finRange i)) hi⟩
    · exact hmem
  · rintro _ ⟨j, rfl⟩
    exact hall j (List.mem_finRange j)

end Sample

/-! ### Runs -/

/-- The balancers are sound, and what is recorded of a package is its stable sample. -/
structure Recorded (t : Tracked numDomain) : Prop where
  sound : ∀ i, Sound (t.role.packages i).balancer
  runtime : t.role.currentStep = .measureRuntime → ∀ i,
    (t.role.packages i).isStepComplete = true →
      ∃ runtime, (t.role.packages i).runtime = some runtime ∧ t.stable i = some runtime

section Runs

variable {t t' : Tracked numDomain} {s : LeafRole numDomain} {readings : Fin numDomain → Reading}

theorem Recorded.adjustPlatform (h : Recorded t) {policy : Policy} {now : Fin numDomain → ℚ}
    {written : Bool} (hrun : adjustPlatform policy now t.role = .ok written s) :
    Recorded { t with role := s } := by
  have hfollows := adjustPlatform_follows hrun
  refine ⟨hfollows.sound h.sound, fun hmeasure i hi => ?_⟩
  obtain ⟨hmeasure', hi', hruntime⟩ := hfollows.complete hmeasure i hi
  obtain ⟨runtime, hrecorded, hstable⟩ := h.runtime hmeasure' i hi'
  exact ⟨runtime, hruntime.trans hrecorded, hstable⟩

theorem Recorded.samplePlatform (h : Recorded t) (hsteady : t.Steady (.samplePlatform readings))
    {sample : Sample} {result : Bool}
    (hrun : samplePlatform readings t.role = .ok (sample, result) s) : Recorded (t.after s) := by
  obtain ⟨u, hstep, rfl, -, -⟩ := samplePlatform_eq_ok hrun
  obtain ⟨hcurrent, hsound, hbody⟩ := sampleStep_eq_ok h.sound hstep
  refine ⟨fun i => ?_, fun hmeasure i hi => ?_⟩
  · show Sound ((keepSample u).packages i).balancer
    rw [keepSample_packages]
    exact hsound i
  have hmeasure' : t.role.currentStep = .measureRuntime := by
    rw [← hcurrent, ← keepSample_currentStep]
    exact hmeasure
  change ((keepSample u).packages i).isStepComplete = true at hi
  show ∃ runtime, ((keepSample u).packages i).runtime = some runtime ∧
    (if t.role.currentStep = .measureRuntime ∧ (t.role.packages i).isStepComplete = false ∧
        ((keepSample u).packages i).isStepComplete = true then
      ((keepSample u).packages i).balancer.runtimeSample else t.stable i) = some runtime
  rw [keepSample_packages] at hi ⊢
  obtain ⟨-, hcomplete, hruntime, hsample⟩ := measureRuntime_eq_ok (h.sound i) (hbody hmeasure' i)
  rw [hruntime hi]
  cases hold : (t.role.packages i).isStepComplete with
  | true =>
    -- the package had been complete before
    rw [if_neg fun hnew => Bool.false_ne_true hnew.2.1.symm]
    exact h.runtime hmeasure' i hold
  | false =>
    rw [hold, hi, Bool.false_or] at hcomplete
    have hmeasures : (t.role.packages i).measures (readings i) = true :=
      (Bool.and_eq_true_iff.mp hcomplete.symm).1
    obtain ⟨runtime, hmedian⟩ :=
      exists_median_taken (h.sound i) (Bool.and_eq_true_iff.mp hmeasures).2
    rw [if_pos ⟨hmeasure', rfl, hi⟩, (hsteady hmeasure').1 i hcomplete.symm,
      (hsample hmeasures).1]
    exact ⟨runtime, hmedian, hmedian⟩

theorem next_adjustPlatform {policy : Policy} {now : Fin numDomain → ℚ}
    (h : t.next (.adjustPlatform policy now) = some t') :
    ∃ written s, PowerBalancerAgent.adjustPlatform policy now t.role = .ok written s ∧
      t' = { t with role := s } := by
  unfold Tracked.next at h
  dsimp only at h
  cases hrun : PowerBalancerAgent.adjustPlatform policy now t.role with
  | error e s =>
    rw [hrun] at h
    cases h
  | ok written s =>
    rw [hrun] at h
    cases h
    exact ⟨written, s, rfl, rfl⟩

theorem next_samplePlatform (h : t.next (.samplePlatform readings) = some t') :
    ∃ sample result s,
      PowerBalancerAgent.samplePlatform readings t.role = .ok (sample, result) s ∧
        t' = t.after s := by
  unfold Tracked.next at h
  dsimp only at h
  cases hrun : PowerBalancerAgent.samplePlatform readings t.role with
  | error e s =>
    rw [hrun] at h
    cases h
  | ok result s =>
    rw [hrun] at h
    cases h
    exact ⟨result.1, result.2, s, rfl, rfl⟩

/-- **Every steady call keeps what is recorded.** -/
theorem Recorded.next {call : Call numDomain} (h : Recorded t) (hsteady : t.Steady call)
    (hnext : t.next call = some t') : Recorded t' := by
  cases call with
  | adjustPlatform policy now =>
    obtain ⟨written, s, hrun, rfl⟩ := next_adjustPlatform hnext
    exact h.adjustPlatform hrun
  | samplePlatform readings =>
    obtain ⟨sample, result, s, hrun, rfl⟩ := next_samplePlatform hnext
    exact h.samplePlatform hsteady hrun

theorem Recorded.right (h : Recorded t) (hsteady : t.Steady (.samplePlatform readings)) :
    t.Right readings := by
  intro sample s hrun hmeasure
  have hafter := h.samplePlatform hsteady hrun
  obtain ⟨u, hstep, rfl, rfl, hcomplete⟩ := samplePlatform_eq_ok hrun
  obtain ⟨hcurrent, -, hbody⟩ := sampleStep_eq_ok h.sound hstep
  have hall : ∀ i, (u.packages i).isStepComplete = true := by
    intro i
    exact List.all_eq_true.mp hcomplete.symm i (List.mem_finRange i)
  have hrecorded : ∀ i, ∃ runtime, (u.packages i).runtime = some runtime ∧
      (t.after (keepSample u)).stable i = some runtime := by
    intro i
    have hmeasure' : (t.after (keepSample u)).role.currentStep = .measureRuntime := by
      show (keepSample u).currentStep = _
      rw [keepSample_currentStep, hcurrent, hmeasure]
    obtain ⟨runtime, hruntime, hstable⟩ := hafter.runtime hmeasure' i (by
      show ((keepSample u).packages i).isStepComplete = true
      rw [keepSample_packages]
      exact hall i)
    change ((keepSample u).packages i).runtime = some runtime at hruntime
    rw [keepSample_packages] at hruntime
    exact ⟨runtime, hruntime, hstable⟩
  choose runtime hruntime hstable using hrecorded
  refine ⟨runtime, hstable, ?_⟩
  have hnonneg : ∃ i, 0 ≤ runtime i := by
    have hbefore : ∀ i, (t.role.packages i).isStepComplete = true ∨
        (t.role.packages i).becomesStable (readings i) = true := by
      intro i
      have hor := (measureRuntime_eq_ok (h.sound i) (hbody hmeasure i)).2.1
      rw [hall i] at hor
      exact Bool.or_eq_true_iff.mp hor.symm
    obtain ⟨i, first, hfirst, hpos⟩ := (hsteady hmeasure).2 hbefore
    have hsame := (measureRuntime_eq_ok (h.sound i) (hbody hmeasure i)).2.2.1 (hall i)
    rw [hruntime i, hfirst] at hsame
    exact ⟨i, (Option.some.inj hsame).symm ▸ hpos⟩
  obtain ⟨largest, hfold, hgreatest⟩ := foldl_max hnonneg
  refine ⟨largest, ?_, hgreatest⟩
  show (List.finRange numDomain).foldl
    (fun result i => Value.max result (u.packages i).runtime) (some 0) = _
  simp only [hruntime]
  exact hfold

theorem recorded_make (numDomain_pos : 0 < numDomain) (numNode : ℕ)
    (timeWindow minPower maxPower : ℚ) (isSingleNode : Bool) :
    Recorded { role := .make numDomain_pos numNode timeWindow minPower maxPower isSingleNode } :=
  ⟨fun _ => sound_make .., fun h => by cases h⟩

end Runs

/-- **The runtime sent up is the measured one**, in runs of steady calls. -/
theorem right_of_steady (numDomain_pos : 0 < numDomain) (numNode : ℕ)
    (timeWindow minPower maxPower : ℚ) (isSingleNode : Bool) {t : Tracked numDomain}
    {readings : Fin numDomain → Reading}
    (hrun : (leafCalls numDomain).ReachableIf Tracked.Steady
      { role := .make numDomain_pos numNode timeWindow minPower maxPower isSingleNode } t)
    (hsteady : t.Steady (.samplePlatform readings)) : t.Right readings :=
  (hrun.invariant (recorded_make ..) fun _ _ _ h hl hnext => h.next hl hnext).right hsteady

/-! ### Measuring with one package -/

section Measuring

theorem sound_of_reachable {numDomain_pos : 0 < numDomain} {numNode : ℕ}
    {timeWindow minPower maxPower : ℚ} {isSingleNode : Bool} {t : Tracked numDomain}
    (h : (leafCalls numDomain).Reachable
      { role := .make numDomain_pos numNode timeWindow minPower maxPower isSingleNode } t) :
    ∀ i, Sound (t.role.packages i).balancer := by
  refine h.invariant (I := fun t => ∀ i, Sound (t.role.packages i).balancer)
    (fun _ => sound_make ..) fun t call t' hs _ hnext => ?_
  cases call with
  | adjustPlatform policy now =>
    obtain ⟨written, s, hrun, rfl⟩ := next_adjustPlatform hnext
    exact (adjustPlatform_follows hrun).sound hs
  | samplePlatform readings =>
    obtain ⟨sample, result, s, hrun, rfl⟩ := next_samplePlatform hnext
    obtain ⟨u, hstep, rfl, -, -⟩ := samplePlatform_eq_ok hrun
    intro i
    show Sound ((keepSample u).packages i).balancer
    rw [keepSample_packages]
    exact (sampleStep_eq_ok hs hstep).2.1 i

theorem runtime_of_next {t t' : Tracked numDomain} {readings : Fin numDomain → Reading}
    {i : Fin numDomain} (hs : ∀ i, Sound (t.role.packages i).balancer)
    (hmeasure : t.role.currentStep = .measureRuntime)
    (hmeasures : (t.role.packages i).measures (readings i) = true)
    (hunstable : (t.role.packages i).becomesStable (readings i) = false)
    (hnext : t.next (.samplePlatform readings) = some t') :
    (t'.role.packages i).runtime =
      Agg.median.apply (taken (readings i).balancedEpochRuntime (t.role.packages i).balancer) := by
  obtain ⟨sample, result, s, hrun, rfl⟩ := next_samplePlatform hnext
  obtain ⟨u, hstep, rfl, -, -⟩ := samplePlatform_eq_ok hrun
  obtain ⟨-, hcomplete, -, hsample⟩ :=
    measureRuntime_eq_ok (hs i) ((sampleStep_eq_ok hs hstep).2.2 hmeasure i)
  rw [isActive_incomplete (Bool.and_eq_true_iff.mp hmeasures).1, hunstable,
    Bool.false_or] at hcomplete
  show ((keepSample u).packages i).runtime = _
  rw [keepSample_packages, (hsample hmeasures).2 hcomplete, (hsample hmeasures).1]

/-- The runtime of an epoch of the only package, at a time that is the number of the epoch. -/
def epochOf (epochCount : ℤ) (runtime : ℚ) : Fin 1 → Reading := fun _ =>
  { epochCount, total := some runtime, network := some 0, ignore := some 0, now := epochCount }

/-- A leaf of a tree with two nodes. -/
def firstLeaf : Tracked 1 where
  role := .make Nat.one_pos 2 (15 / 1000) 50 300 false

/-- A limit of 200 W is received, and then the runtimes of seven epochs are measured. -/
def measuring (runtimes : List ℚ) : List (Call 1) :=
  [.adjustPlatform { cpuPowerLimit := some 200, stepCount := some 0 } fun _ => 0,
    .adjustPlatform { cpuPowerLimit := some 0, stepCount := some 1 } fun _ => 0] ++
  runtimes.zipIdx.map fun (runtime, i) => .samplePlatform (epochOf (i + 2) runtime)

/-- No sample becomes stable, and that of a package is not stable yet. -/
def Tracked.Quiet (t : Tracked numDomain) : Call numDomain → Prop
  | .adjustPlatform _ _ => True
  | .samplePlatform readings =>
    ∃ i, (t.role.packages i).isStepComplete = false ∧
      ∀ i, (t.role.packages i).becomesStable (readings i) = false

instance (t : Tracked numDomain) (call : Call numDomain) : Decidable (t.Quiet call) :=
  match call with
  | .adjustPlatform _ _ => isTrue trivial
  | .samplePlatform readings => inferInstanceAs (Decidable (∃ i,
      (t.role.packages i).isStepComplete = false ∧
        ∀ i, (t.role.packages i).becomesStable (readings i) = false))

theorem Tracked.Quiet.steady {t : Tracked numDomain} {call : Call numDomain} (h : t.Quiet call) :
    t.Steady call := by
  cases call with
  | adjustPlatform policy now => trivial
  | samplePlatform readings =>
    obtain ⟨i, hincomplete, hnone⟩ := h
    refine fun _ => ⟨fun i hi => ?_, fun hall => ?_⟩
    · rw [hnone i] at hi
      cases hi
    · obtain hi | hi := hall i
      · rw [hincomplete] at hi
        cases hi
      · rw [hnone i] at hi
        cases hi

/-- Seven runtimes have been measured, and the eighth does not make the sample stable. -/
def eighth (x : ℚ) (t : Tracked 1) : Step × Bool × Bool × List Value :=
  (t.role.currentStep, (t.role.packages 0).measures (epochOf 9 x 0),
    (t.role.packages 0).becomesStable (epochOf 9 x 0),
    taken (epochOf 9 x 0).balancedEpochRuntime (t.role.packages 0).balancer)

/-- Eight runtimes have been measured, and the sample is sent with the ninth. -/
def ninth (x : ℚ) (t : Tracked 1) : Step × Bool × List Value × Bool :=
  (t.role.currentStep, (t.role.packages 0).becomesStable (epochOf 10 x 0),
    taken (epochOf 10 x 0).balancedEpochRuntime (t.role.packages 0).balancer,
    match samplePlatform (epochOf 10 x) t.role with
    | .ok (_, result) _ => result
    | .error _ _ => false)

/-- The ninth runtime makes the sample stable, and what is recorded is the median of the eight. -/
theorem exists_ninth (runtimes : List ℚ) (x : ℚ) (eight nine : List Value)
    (heighth : (Lts.run Tracked.next firstLeaf (measuring runtimes)).map (eighth x) =
      some (.measureRuntime, true, false, eight))
    (hninth : (Lts.run Tracked.next firstLeaf
      (measuring runtimes ++ [.samplePlatform (epochOf 9 x)])).map (ninth x) =
      some (.measureRuntime, true, nine, true)) :
    ∃ t sample s, Lts.run Tracked.next firstLeaf
        (measuring runtimes ++ [.samplePlatform (epochOf 9 x)]) = some t ∧
      samplePlatform (epochOf 10 x) t.role = .ok (sample, true) s ∧
      t.role.currentStep = .measureRuntime ∧
      (t.role.packages 0).becomesStable (epochOf 10 x 0) = true ∧
      taken (epochOf 10 x 0).balancedEpochRuntime (t.role.packages 0).balancer = nine ∧
      (t.role.packages 0).runtime = Agg.median.apply eight := by
  obtain ⟨t, hrun, hfacts⟩ := Option.map_eq_some_iff.mp heighth
  obtain ⟨t', hrun', hfacts'⟩ := Option.map_eq_some_iff.mp hninth
  simp only [eighth, Prod.mk.injEq] at hfacts
  simp only [ninth, Prod.mk.injEq] at hfacts'
  obtain ⟨hmeasure, hmeasures, hunstable, height⟩ := hfacts
  obtain ⟨hmeasure', hstable, hnine, hreports⟩ := hfacts'
  have hnext : t.next (.samplePlatform (epochOf 9 x)) = some t' := by
    rw [Lts.run_concat, hrun] at hrun'
    exact hrun'
  have hruntime := runtime_of_next (sound_of_reachable (Lts.reachable_of_run hrun)) hmeasure
    hmeasures hunstable hnext
  rw [height] at hruntime
  cases hsample : samplePlatform (epochOf 10 x) t'.role with
  | error e s =>
    rw [hsample] at hreports
    cases hreports
  | ok result s =>
    obtain ⟨sample, result⟩ := result
    rw [hsample] at hreports
    change result = true at hreports
    rw [hreports] at hsample
    exact ⟨t', sample, s, hrun', hsample, hmeasure', hstable, hnine, hruntime⟩

/-- Nine runtimes of one second: the sample is sent with the last of them. -/
theorem right_of_steady_ones :
    ∃ t sample s, (leafCalls 1).Reachable firstLeaf t ∧ t.role.currentStep = .measureRuntime ∧
      samplePlatform (epochOf 10 1) t.role = .ok (sample, true) s ∧ t.Right (epochOf 10 1) := by
  have hquiet : (Lts.run (fun t l => if t.Quiet l then t.next l else none) firstLeaf
      (measuring [1, 1, 1, 1, 1, 1, 1] ++ [.samplePlatform (epochOf 9 1)])).isSome = true := by
    decide +kernel
  obtain ⟨t, sample, s, hrun, hsample, hmeasure, hstable, hnine, hruntime⟩ :=
    exists_ninth [1, 1, 1, 1, 1, 1, 1] 1 (List.replicate 8 (some 1))
      (List.replicate 9 (some 1)) (by decide +kernel) (by decide +kernel)
  obtain ⟨t', hchecked⟩ := Option.isSome_iff_exists.mp hquiet
  obtain ⟨hrun', hreach⟩ := Lts.run_of_checked hchecked
  cases hrun.symm.trans hrun'
  refine ⟨t, sample, s, hreach.reachable, hmeasure, hsample, ?_⟩
  refine right_of_steady Nat.one_pos 2 (15 / 1000) 50 300 false
    (hreach.mono fun _ _ h => h.steady) fun _ => ⟨fun i _ => ?_, fun _ => ⟨0, 1, ?_, zero_le_one⟩⟩
  · rw [Fin.eq_zero i, hruntime, hnine, Agg.median_replicate, Agg.median_replicate]
  · rw [hruntime, Agg.median_replicate]

theorem median_changed :
    Agg.median.apply [some 1, some 1, some 1, some 1, some 2, some 2, some 2, some 2] =
        some (3 / 2) ∧
      Agg.median.apply [some 1, some 1, some 1, some 1, some 2, some 2, some 2, some 2, some 2] =
        some 2 := by
  have height : ([1, 1, 1, 1, 2, 2, 2, 2] : List ℚ).mergeSort (fun a b => decide (a ≤ b)) =
      [1, 1, 1, 1, 2, 2, 2, 2] := by
    rw [List.mergeSort_eq_insertionSort (· ≤ ·)]
    decide +kernel
  have hnine : ([1, 1, 1, 1, 2, 2, 2, 2, 2] : List ℚ).mergeSort (fun a b => decide (a ≤ b)) =
      [1, 1, 1, 1, 2, 2, 2, 2, 2] := by
    rw [List.mergeSort_eq_insertionSort (· ≤ ·)]
    decide +kernel
  refine ⟨?_, ?_⟩
  · show some (Agg.medianOf [1, 1, 1, 1, 2, 2, 2, 2]) = _
    unfold Agg.medianOf
    dsimp only
    rw [height]
    decide +kernel
  · show some (Agg.medianOf [1, 1, 1, 1, 2, 2, 2, 2, 2]) = _
    unfold Agg.medianOf
    dsimp only
    rw [hnine]
    decide +kernel

/-- Four runtimes of one second, and then five of two: the median of eight of them is sent. -/
theorem not_right_changed :
    ∃ t, (leafCalls 1).Reachable firstLeaf t ∧ ¬ t.Right (epochOf 10 2) := by
  obtain ⟨t, sample, s, hrun, hsample, hmeasure, hstable, hnine, hruntime⟩ :=
    exists_ninth [1, 1, 1, 1, 2, 2, 2] 2
      [some 1, some 1, some 1, some 1, some 2, some 2, some 2, some 2]
      [some 1, some 1, some 1, some 1, some 2, some 2, some 2, some 2, some 2]
      (by decide +kernel) (by decide +kernel)
  have hreach := Lts.reachable_of_run hrun
  have hs := sound_of_reachable hreach
  refine ⟨t, hreach, fun hright => ?_⟩
  obtain ⟨runtime, hafter, largest, hlargest, hgreatest⟩ := hright sample s hsample hmeasure
  obtain ⟨u, hstep, rfl, rfl, -⟩ := samplePlatform_eq_ok hsample
  obtain ⟨-, hcomplete, hsame, hmedian⟩ :=
    measureRuntime_eq_ok (hs 0) ((sampleStep_eq_ok hs hstep).2.2 hmeasure 0)
  have hmeasures := (Bool.and_eq_true_iff.mp hstable).1
  have hincomplete := isActive_incomplete (Bool.and_eq_true_iff.mp hmeasures).1
  rw [hstable, Bool.or_true] at hcomplete
  -- the stable sample is the median of all nine
  have htwo : some (runtime 0) = some 2 := by
    rw [← hafter 0]
    show (if t.role.currentStep = .measureRuntime ∧ (t.role.packages 0).isStepComplete = false ∧
        ((keepSample u).packages 0).isStepComplete = true then
      ((keepSample u).packages 0).balancer.runtimeSample else t.stable 0) = _
    rw [keepSample_packages, if_pos ⟨hmeasure, hincomplete, hcomplete⟩, (hmedian hmeasures).1,
      hnine, median_changed.2]
  -- the runtime that is sent is that of the first eight
  have hsent : some largest = some (3 / 2) := by
    rw [← hlargest]
    show Value.max (some 0) (u.packages 0).runtime = _
    rw [hsame hcomplete, hruntime, median_changed.1]
    decide +kernel
  obtain ⟨i, hi⟩ := hgreatest.1
  rw [Fin.eq_zero i, Option.some.inj htwo, Option.some.inj hsent] at hi
  norm_num at hi

end Measuring

end Geopm.PowerBalancerAgent
