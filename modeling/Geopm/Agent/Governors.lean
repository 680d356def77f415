import Geopm.Double
import Geopm.Exception
import Geopm.Lib.Lts
import Geopm.Lib.Writeback

/-!
# The governors of frequency, power and class of service

A governor adjusts the controls of its domain in the batch of `PlatformIO`, and says with
`do_write_batch` whether the batch has to be written.

* `FrequencyGovernor`, `PowerGovernor`, `SSTClosGovernor` : the governors and their methods;
* `Controls` : the batch, and the settings that are in force;
* `FrequencyRun`, `PowerRun`, `SSTClosRun` : runs in which the batch is written just when the
  governor says so, with the settings that were asked for;
* `FrequencyRun.along_truthful_iff`, `PowerRun.along_truthful_iff`, `SSTClosRun.along_truthful` : the
  settings that were asked for are in force exactly when no step meets the exceptions;
* `flags_truthful_iff` : all three.
-/

namespace Geopm.Governor

open Double

/-- The values that a batch holds for the controls of a governor, and their settings. -/
structure Controls where
  adjusted : List Double
  setting : List Double

namespace Controls

/-- `adjust` for each control. -/
def adjust (c : Controls) (values : List Double) : Controls := { c with adjusted := values }

def writeBatch (c : Controls) : Controls := { c with setting := c.adjusted }

/-- The caller adjusts, and writes the batch when the governor says so. -/
def adjustAndWrite (c : Controls) (values : List Double) (doWriteBatch : Bool) : Controls :=
  if doWriteBatch then (c.adjust values).writeBatch else c.adjust values

@[simp] theorem setting_adjustAndWrite (c : Controls) (values : List Double) (b : Bool) :
    (c.adjustAndWrite values b).setting = if b then values else c.setting := by
  cases b <;> rfl

end Controls

/-! ### The frequency governor -/

/-- The members of `FrequencyGovernorImp`, and the sticker frequency of the platform. -/
structure FrequencyGovernor where
  platFreqMin : Double
  platFreqMax : Double
  freqSticker : Double
  freqMin : Double
  freqMax : Double
  clampCount : ℕ
  doWriteBatch : Bool
  numControl : ℕ
  lastFreq : List Double

namespace FrequencyGovernor

/-- The constructor and `init_platform_io`. -/
def init (platFreqMin platFreqMax freqSticker : Double) (numFreqCtlDomain : ℕ) :
    FrequencyGovernor where
  platFreqMin := platFreqMin
  platFreqMax := platFreqMax
  freqSticker := freqSticker
  freqMin := platFreqMin
  freqMax := platFreqMax
  clampCount := 0
  doWriteBatch := false
  numControl := numFreqCtlDomain
  lastFreq := List.replicate numFreqCtlDomain .nan

variable (g : FrequencyGovernor)

/-- A request that is clamped to the bounds. -/
def clamp (request : Double) : Double :=
  if g.freqMax.lt request then g.freqMax
  else if request.lt g.freqMin then g.freqMin
  else request

/-- `adjust_platform`, and the values that it adjusts the controls to. -/
def adjustPlatform (frequencyRequest : List Double) :
    Except Exception (FrequencyGovernor × List Double) :=
  if frequencyRequest.length ≠ g.numControl then
    .error ⟨"FrequencyGovernorImp::adjust_platform(): size of request vector does not match size " ++
      "of control domain.", [], .invalid⟩
  else
    let frequencyActual := frequencyRequest.map g.clamp
    .ok ({ g with
      doWriteBatch := !Double.eqVec g.lastFreq frequencyRequest
      clampCount := g.clampCount +
        frequencyRequest.countP fun request => g.freqMax.lt request || request.lt g.freqMin
      lastFreq := frequencyActual }, frequencyActual)

def setFrequencyBounds (freqMin freqMax : Double) : Except Exception (FrequencyGovernor × Bool) :=
  if freqMin.lt g.platFreqMin || g.platFreqMax.lt freqMax || freqMax.lt freqMin then
    .error ⟨"FrequencyGovernorImp::set_frequency_bounds(): invalid frequency bounds.", [], .invalid⟩
  else if !g.freqMin.eq freqMin || !g.freqMax.eq freqMax then
    .ok ({ g with freqMin := freqMin, freqMax := freqMax }, true)
  else .ok (g, false)

/-- `validate_policy`: the bounds that it leaves. -/
def validatePolicy (freqMin freqMax : Double) : Except Exception (Double × Double) :=
  let freqMin := if freqMin.isNan then g.platFreqMin else freqMin
  let freqMax := if freqMax.isNan then g.freqSticker else freqMax
  if freqMax.lt freqMin then
    .error ⟨"FrequencyGovernorImp::validate_policy(): freq_min must not be greater than freq_max.",
      [], .invalid⟩
  else .ok (if freqMin.lt g.freqMin then g.freqMin else freqMin,
    if g.freqMax.lt freqMax then g.freqMax else freqMax)

end FrequencyGovernor

/-- A run of the governor: its controls, and the last request, clamped to the bounds that were in
force then. -/
structure FrequencyRun where
  governor : FrequencyGovernor
  controls : Controls
  expected : Option (List Double)

/-- The calls of a frequency governor. -/
inductive FrequencyCall where
  | setFrequencyBounds (freqMin freqMax : Double)
  | adjustPlatform (frequencyRequest : List Double)

namespace FrequencyRun

/-- A governor that has been set up, and the settings of its controls. -/
def start (platFreqMin platFreqMax freqSticker : Double) (setting : List Double) : FrequencyRun where
  governor := .init platFreqMin platFreqMax freqSticker setting.length
  controls := ⟨[], setting⟩
  expected := none

/-- A call; one that throws changes nothing. -/
def next (s : FrequencyRun) : FrequencyCall → FrequencyRun
  | .setFrequencyBounds freqMin freqMax =>
    match s.governor.setFrequencyBounds freqMin freqMax with
    | .ok (governor, _) => { s with governor }
    | .error _ => s
  | .adjustPlatform frequencyRequest =>
    match s.governor.adjustPlatform frequencyRequest with
    | .ok (governor, frequencyActual) =>
      { governor
        controls := s.controls.adjustAndWrite frequencyActual governor.doWriteBatch
        expected := some (frequencyRequest.map s.governor.clamp) }
    | .error _ => s

/-- The last request is in force. -/
def Truthful (s : FrequencyRun) : Prop := ∀ e ∈ s.expected, Double.SameVec s.controls.setting e

/-- A request that repeats the last setting is within the bounds. -/
def Governed (s : FrequencyRun) : FrequencyCall → Prop
  | .setFrequencyBounds _ _ => True
  | .adjustPlatform frequencyRequest =>
    Double.eqVec s.governor.lastFreq frequencyRequest = true →
      Double.SameVec (frequencyRequest.map s.governor.clamp) frequencyRequest

/-- What asks for the settings, and what is in force. -/
def writeback (s : FrequencyRun) : Writeback (List Double) :=
  ⟨s.governor.lastFreq, s.controls.setting⟩

/-- Before the first request nothing was set; afterwards the last setting is what was asked for, and
in force. -/
structure Inv (s : FrequencyRun) : Prop where
  length : s.controls.setting.length = s.governor.numControl
  unset : s.expected = none → s.governor.lastFreq = List.replicate s.governor.numControl .nan
  isSet : ∀ e ∈ s.expected, e = s.governor.lastFreq ∧ s.writeback.Coherent Double.SameVec

variable {s : FrequencyRun}

theorem Inv.truthful (h : s.Inv) : s.Truthful := by
  intro e he
  obtain ⟨rfl, hforce⟩ := h.isSet e he
  exact hforce

theorem inv_start (platFreqMin platFreqMax freqSticker : Double) (setting : List Double) :
    (start platFreqMin platFreqMax freqSticker setting).Inv :=
  ⟨rfl, fun _ => rfl, nofun⟩

/-- What the two calls do. -/
theorem next_setFrequencyBounds (s : FrequencyRun) (freqMin freqMax : Double) :
    ∃ g : FrequencyGovernor, s.next (.setFrequencyBounds freqMin freqMax) = { s with governor := g } ∧
      g.numControl = s.governor.numControl ∧ g.lastFreq = s.governor.lastFreq := by
  rw [next, FrequencyGovernor.setFrequencyBounds]
  split_ifs
  · exact ⟨s.governor, rfl, rfl, rfl⟩
  · exact ⟨_, rfl, rfl, rfl⟩
  · exact ⟨s.governor, rfl, rfl, rfl⟩

theorem next_adjustPlatform (s : FrequencyRun) (request : List Double) :
    s.next (.adjustPlatform request) = s ∧ request.length ≠ s.governor.numControl ∨
    request.length = s.governor.numControl ∧
      (s.next (.adjustPlatform request)).governor.numControl = s.governor.numControl ∧
      (s.next (.adjustPlatform request)).expected = some (request.map s.governor.clamp) ∧
      (s.next (.adjustPlatform request)).writeback =
        s.writeback.set (request.map s.governor.clamp)
          (!Double.eqVec s.governor.lastFreq request) := by
  by_cases h : request.length ≠ s.governor.numControl
  · exact .inl ⟨by simp [next, FrequencyGovernor.adjustPlatform, h], h⟩
  · refine .inr ⟨not_not.mp h, ?_, ?_, ?_⟩
    · simp [next, FrequencyGovernor.adjustPlatform, h]
    · simp [next, FrequencyGovernor.adjustPlatform, h]
    · simp [next, FrequencyGovernor.adjustPlatform, h, writeback, Writeback.set]

theorem Inv.length_lastFreq (h : s.Inv) :
    s.governor.lastFreq.length = s.governor.numControl := by
  cases hexpected : s.expected with
  | none => rw [h.unset hexpected, List.length_replicate]
  | some e =>
    have hmap := congrArg List.length (h.isSet e hexpected).2
    rw [List.length_map, List.length_map] at hmap
    exact hmap.symm.trans h.length

theorem Inv.write_or_coherent (h : s.Inv) (request : List Double) :
    Double.eqVec s.governor.lastFreq request = false ∨ s.writeback.Coherent Double.SameVec := by
  cases hexpected : s.expected with
  | some e => exact .inr (h.isSet e hexpected).2
  | none =>
    by_cases hn : s.governor.numControl = 0
    · have hsetting := List.length_eq_zero_iff.mp (h.length.trans hn)
      have hlast : s.governor.lastFreq = [] := by rw [h.unset hexpected, hn]; rfl
      exact .inr (by rw [writeback, hsetting, hlast]; rfl)
    · rw [h.unset hexpected]
      exact .inl (nan_eqVec hn request)

theorem Inv.coherent_set_iff (h : s.Inv) (request : List Double) :
    (s.writeback.set (request.map s.governor.clamp)
      (!Double.eqVec s.governor.lastFreq request)).Coherent Double.SameVec ↔
        s.Governed (.adjustPlatform request) := by
  have hr := Double.sameVec_equivalence
  rw [Governed]
  rcases h.write_or_coherent request with hwrite | hcoherent
  · rw [hwrite]
    exact ⟨fun _ => nofun, fun _ => Writeback.coherent_set_of_write hr⟩
  · rw [Writeback.coherent_set_iff hr hcoherent]
    cases heq : Double.eqVec s.governor.lastFreq request with
    | false => exact ⟨fun _ => nofun, fun _ => .inl rfl⟩
    | true =>
      have hlast := sameVec_of_eqVec heq
      constructor
      · rintro (hwrite | htarget) _
        · cases hwrite
        · exact hr.trans (hr.symm htarget) hlast
      · exact fun hgoverned => .inr (hr.trans hlast (hr.symm (hgoverned rfl)))

/-- After a call the last request is in force exactly when the call is governed, and then the
invariant is kept. -/
theorem Inv.next (h : s.Inv) (l : FrequencyCall) :
    ((s.next l).Truthful ↔ s.Governed l) ∧ (s.Governed l → (s.next l).Inv) := by
  cases l with
  | setFrequencyBounds freqMin freqMax =>
    obtain ⟨g, hnext, hcontrol, hlast⟩ := s.next_setFrequencyBounds freqMin freqMax
    have hinv : (s.next (.setFrequencyBounds freqMin freqMax)).Inv := by
      rw [hnext]
      refine ⟨h.length.trans hcontrol.symm, fun hnone => ?_, fun e he => ?_⟩
      · rw [hlast, hcontrol]
        exact h.unset hnone
      · rw [writeback, hlast]
        exact h.isSet e he
    exact ⟨⟨fun _ => trivial, fun _ => hinv.truthful⟩, fun _ => hinv⟩
  | adjustPlatform request =>
    rcases s.next_adjustPlatform request with ⟨hnext, hlength⟩ | ⟨hlength, hcontrol, hexpected, hset⟩
    · -- the call throws, and the request is not the last setting
      have hgoverned : s.Governed (.adjustPlatform request) := by
        intro heq
        have hmap := congrArg List.length (sameVec_of_eqVec heq)
        rw [List.length_map, List.length_map, h.length_lastFreq] at hmap
        exact absurd hmap.symm hlength
      rw [hnext]
      exact ⟨⟨fun _ => hgoverned, fun _ => h.truthful⟩, fun _ => h⟩
    · have hlast := congrArg Writeback.last hset
      have hforce := congrArg Writeback.inForce hset
      have hcoherent := h.coherent_set_iff request
      rw [← hset] at hcoherent
      constructor
      · rw [← hcoherent, Truthful, hexpected, Writeback.Coherent, hlast]
        simp [writeback]
      · intro hgoverned
        refine ⟨?_, fun hnone => ?_, fun e he => ?_⟩
        · have hsetting : (s.next (.adjustPlatform request)).controls.setting = _ := hforce
          rw [hsetting, hcontrol, Writeback.set]
          split_ifs
          · exact (List.length_map _).trans hlength
          · exact h.length
        · rw [hexpected] at hnone
          cases hnone
        · rw [hexpected] at he
          obtain rfl := Option.some.inj he
          exact ⟨hlast.symm, hcoherent.mpr hgoverned⟩

theorem along_truthful_iff (platFreqMin platFreqMax freqSticker : Double) (setting : List Double)
    (calls : List FrequencyCall) :
    Lts.Along (fun s l => (s.next l).Truthful) next
        (start platFreqMin platFreqMax freqSticker setting) calls ↔
      Lts.Along Governed next (start platFreqMin platFreqMax freqSticker setting) calls :=
  Lts.along_iff_along (A := fun _ _ => True) (fun _ l h _ => (h.next l).1)
    (fun _ l h _ hgoverned => (h.next l).2 hgoverned) (inv_start _ _ _ _)
    (Lts.along_of_forall fun _ _ _ => trivial)

end FrequencyRun

/-! ### The power governor -/

/-- The members of `PowerGovernorImp`. -/
structure PowerGovernor where
  numPkg : ℕ
  numPkg_pos : 0 < numPkg
  minPkgPowerSetting : Double
  maxPkgPowerSetting : Double
  minPkgPowerPolicy : Double
  maxPkgPowerPolicy : Double
  lastPkgPowerSetting : Double
  doWriteBatch : Bool

namespace PowerGovernor

/-- The constructor. -/
def init (numPkg : ℕ) (numPkg_pos : 0 < numPkg) (minPkgPowerSetting maxPkgPowerSetting : Double) :
    PowerGovernor where
  numPkg := numPkg
  numPkg_pos := numPkg_pos
  minPkgPowerSetting := minPkgPowerSetting
  maxPkgPowerSetting := maxPkgPowerSetting
  minPkgPowerPolicy := minPkgPowerSetting
  maxPkgPowerPolicy := maxPkgPowerSetting
  lastPkgPowerSetting := .nan
  doWriteBatch := false

variable (g : PowerGovernor)

/-- The share of a package in a request, clamped to the bounds. -/
def targetPkgPower (nodePowerRequest : Double) : Double :=
  let targetPkgPower := nodePowerRequest.divNat g.numPkg
  if targetPkgPower.lt g.minPkgPowerPolicy then g.minPkgPowerPolicy
  else if g.maxPkgPowerPolicy.lt targetPkgPower then g.maxPkgPowerPolicy
  else targetPkgPower

/-- `adjust_platform`: the governor, the value that the controls are adjusted to, if any, and
`node_power_actual` for a variable of the caller. -/
def adjustPlatform (nodePowerRequest nodePowerActual : Double) :
    PowerGovernor × Option Double × Double :=
  let g' := { g with doWriteBatch := false }
  if nodePowerRequest.isNan then (g', none, nodePowerActual)
  else
    let target := g.targetPkgPower nodePowerRequest
    if g.lastPkgPowerSetting.eq target then (g', none, nodePowerActual)
    else ({ g with lastPkgPowerSetting := target, doWriteBatch := true }, some target,
      target.mulNat g.numPkg)

def setPowerBounds (minPkgPower maxPkgPower : Double) : Except Exception PowerGovernor :=
  if minPkgPower.lt g.minPkgPowerSetting then
    .error ⟨"PowerGovernorImp::set_power_bounds invalid min_pkg_power bound.", [], .runtime⟩
  else if g.maxPkgPowerSetting.lt maxPkgPower then
    .error ⟨"PowerGovernorImp::set_power_bounds invalid max_pkg_power bound.", [], .runtime⟩
  else .ok { g with minPkgPowerPolicy := minPkgPower, maxPkgPowerPolicy := maxPkgPower }

end PowerGovernor

/-- A run of the governor: its controls, the last request, clamped to the bounds that were in force
then, and what `node_power_actual` was left at. -/
structure PowerRun where
  governor : PowerGovernor
  controls : Controls
  expected : Option Double
  actual : Option Double

/-- The calls of a power governor, with the variable of the caller. -/
inductive PowerCall where
  | setPowerBounds (minPkgPower maxPkgPower : Double)
  | adjustPlatform (nodePowerRequest nodePowerActual : Double)

namespace PowerRun

/-- A governor that has been set up, and the settings of its controls. -/
def start (minPkgPowerSetting maxPkgPowerSetting : Double) (setting : List Double)
    (h : 0 < setting.length) : PowerRun where
  governor := .init setting.length h minPkgPowerSetting maxPkgPowerSetting
  controls := ⟨[], setting⟩
  expected := none
  actual := none

/-- A call; one that throws changes nothing. -/
def next (s : PowerRun) : PowerCall → PowerRun
  | .setPowerBounds minPkgPower maxPkgPower =>
    match s.governor.setPowerBounds minPkgPower maxPkgPower with
    | .ok governor => { s with governor }
    | .error _ => s
  | .adjustPlatform nodePowerRequest nodePowerActual =>
    let (governor, adjusted, actual) := s.governor.adjustPlatform nodePowerRequest nodePowerActual
    { governor
      controls := match adjusted with
        | some target =>
          s.controls.adjustAndWrite (List.replicate governor.numPkg target) governor.doWriteBatch
        | none => if governor.doWriteBatch then s.controls.writeBatch else s.controls
      expected := if nodePowerRequest.isNan then s.expected
        else some (s.governor.targetPkgPower nodePowerRequest)
      actual := some actual }

/-- The last request is in force on each package, and `node_power_actual` is the sum that is. -/
def Truthful (s : PowerRun) : Prop :=
  (∀ e ∈ s.expected, Double.SameVec s.controls.setting (List.replicate s.governor.numPkg e)) ∧
    ∀ x ∈ s.actual, x.Same (Double.sum s.controls.setting)

/-- When nothing is set, the variable of the caller holds the sum that is in force already. -/
def Governed (s : PowerRun) : PowerCall → Prop
  | .setPowerBounds _ _ => True
  | .adjustPlatform nodePowerRequest nodePowerActual =>
    nodePowerRequest.isNan = true ∨
      s.governor.lastPkgPowerSetting.eq (s.governor.targetPkgPower nodePowerRequest) = true →
    nodePowerActual.Same (Double.sum s.controls.setting)

/-- Before the first request nothing was set; afterwards the last setting is what was asked for, and
in force. -/
structure Inv (s : PowerRun) : Prop where
  unset : s.expected = none → s.governor.lastPkgPowerSetting = .nan
  isSet : ∀ e ∈ s.expected, e.Same s.governor.lastPkgPowerSetting
  truthful : s.Truthful

theorem inv_start (minPkgPowerSetting maxPkgPowerSetting : Double) (setting : List Double)
    (h : 0 < setting.length) : (start minPkgPowerSetting maxPkgPowerSetting setting h).Inv :=
  ⟨fun _ => rfl, nofun, nofun, nofun⟩

variable (s : PowerRun)

/-- What the calls do. -/
theorem next_setPowerBounds (minPkgPower maxPkgPower : Double) :
    ∃ g : PowerGovernor, s.next (.setPowerBounds minPkgPower maxPkgPower) = { s with governor := g } ∧
      g.numPkg = s.governor.numPkg ∧ g.lastPkgPowerSetting = s.governor.lastPkgPowerSetting := by
  rw [next, PowerGovernor.setPowerBounds]
  split_ifs
  · exact ⟨s.governor, rfl, rfl, rfl⟩
  · exact ⟨s.governor, rfl, rfl, rfl⟩
  · exact ⟨_, rfl, rfl, rfl⟩

theorem next_of_not_set {request actual : Double}
    (h : request.isNan = true ∨
      s.governor.lastPkgPowerSetting.eq (s.governor.targetPkgPower request) = true) :
    s.next (.adjustPlatform request actual) =
      { s with
        governor := { s.governor with doWriteBatch := false }
        expected := if request.isNan then s.expected
          else some (s.governor.targetPkgPower request)
        actual := some actual } := by
  cases hnan : request.isNan with
  | true => simp [next, PowerGovernor.adjustPlatform, hnan]
  | false =>
    rw [hnan] at h
    simp [next, PowerGovernor.adjustPlatform, hnan, h.resolve_left Bool.false_ne_true]

theorem next_of_set {request actual : Double}
    (h : ¬ (request.isNan = true ∨
      s.governor.lastPkgPowerSetting.eq (s.governor.targetPkgPower request) = true)) :
    s.next (.adjustPlatform request actual) =
      { governor := { s.governor with
          lastPkgPowerSetting := s.governor.targetPkgPower request
          doWriteBatch := true }
        controls := s.controls.adjustAndWrite
          (List.replicate s.governor.numPkg (s.governor.targetPkgPower request)) true
        expected := some (s.governor.targetPkgPower request)
        actual := some ((s.governor.targetPkgPower request).mulNat s.governor.numPkg) } := by
  rw [not_or] at h
  simp [next, PowerGovernor.adjustPlatform, h.1, h.2]

theorem Inv.next {s : PowerRun} (h : s.Inv) (l : PowerCall) :
    ((s.next l).Truthful ↔ s.Governed l) ∧ (s.Governed l → (s.next l).Inv) := by
  have hr := Double.sameVec_equivalence
  cases l with
  | setPowerBounds minPkgPower maxPkgPower =>
    obtain ⟨g, hnext, hnumPkg, hlast⟩ := s.next_setPowerBounds minPkgPower maxPkgPower
    have hinv : (s.next (.setPowerBounds minPkgPower maxPkgPower)).Inv := by
      rw [hnext]
      refine ⟨fun hnone => hlast.trans (h.unset hnone), fun e he => ?_, ?_⟩
      · rw [hlast]
        exact h.isSet e he
      · rw [Truthful, hnumPkg]
        exact h.truthful
    exact ⟨⟨fun _ => trivial, fun _ => hinv.truthful⟩, fun _ => hinv⟩
  | adjustPlatform request actual =>
    by_cases hset : request.isNan = true ∨
      s.governor.lastPkgPowerSetting.eq (s.governor.targetPkgPower request) = true
    · -- the settings stay, and so does the variable of the caller
      rw [s.next_of_not_set hset]
      have hexpected : ∀ e ∈ (if request.isNan then s.expected
          else some (s.governor.targetPkgPower request)),
          e.Same s.governor.lastPkgPowerSetting ∧
            Double.SameVec s.controls.setting (List.replicate s.governor.numPkg e) := by
        intro e he
        cases hnan : request.isNan with
        | true =>
          rw [if_pos hnan] at he
          exact ⟨h.isSet e he, h.truthful.1 e he⟩
        | false =>
          rw [hnan] at hset
          have heq := hset.resolve_left Bool.false_ne_true
          rw [hnan] at he
          obtain rfl := Option.some.inj he
          have hsame := same_of_eq heq
          refine ⟨hsame.symm, ?_⟩
          cases hlast : s.expected with
          | none =>
            rw [h.unset hlast, nan_eq] at heq
            cases heq
          | some e =>
            exact hr.trans (h.truthful.1 e hlast)
              (sameVec_replicate ((h.isSet e hlast).trans hsame) _)
      have hunset : (if request.isNan then s.expected
          else some (s.governor.targetPkgPower request)) = none →
            s.governor.lastPkgPowerSetting = .nan := by
        cases request.isNan with
        | true => exact h.unset
        | false => exact nofun
      refine ⟨⟨fun htruthful _ => htruthful.2 _ rfl, fun hgoverned => ?_⟩, fun hgoverned =>
        ⟨hunset, fun e he => (hexpected e he).1, ?_⟩⟩
      all_goals
        refine ⟨fun e he => (hexpected e he).2, fun x hx => ?_⟩
        obtain rfl := Option.some.inj hx
        exact hgoverned hset
    · have hinv : (s.next (.adjustPlatform request actual)).Inv := by
        rw [s.next_of_set hset]
        refine ⟨nofun, fun e he => ?_, fun e he => ?_, fun x hx => ?_⟩
        · obtain rfl := Option.some.inj he
          exact Double.same_equivalence.refl _
        · obtain rfl := Option.some.inj he
          exact hr.refl _
        · obtain rfl := Option.some.inj hx
          exact (Double.sum_replicate s.governor.numPkg_pos _).symm
      exact ⟨⟨fun _ hnot => absurd hnot hset, fun _ => hinv.truthful⟩, fun _ => hinv⟩

theorem along_truthful_iff (minPkgPowerSetting maxPkgPowerSetting : Double) (setting : List Double)
    (h : 0 < setting.length) (calls : List PowerCall) :
    Lts.Along (fun s l => (s.next l).Truthful) next
        (start minPkgPowerSetting maxPkgPowerSetting setting h) calls ↔
      Lts.Along Governed next (start minPkgPowerSetting maxPkgPowerSetting setting h) calls :=
  Lts.along_iff_along (A := fun _ _ => True) (fun _ l h _ => (h.next l).1)
    (fun _ l h _ hgoverned => (h.next l).2 hgoverned) (inv_start _ _ _ _)
    (Lts.along_of_forall fun _ _ _ => trivial)

end PowerRun

/-! ### The governor of classes of service -/

/-- `SSTClosGovernor::HIGH_PRIORITY`. -/
def highPriority : Double := .num 0

/-- `SSTClosGovernor::LOW_PRIORITY`. -/
def lowPriority : Double := .num 3

/-- The members of `SSTClosGovernorImp`. -/
structure SSTClosGovernor where
  doWriteBatch : Bool
  isEnabled : Bool
  numClosAssocCtlDomain : ℕ
  lastClos : List Double

namespace SSTClosGovernor

/-- The constructor and `init_platform_io`. -/
def init (numClosAssocCtlDomain : ℕ) : SSTClosGovernor where
  doWriteBatch := false
  isEnabled := true
  numClosAssocCtlDomain := numClosAssocCtlDomain
  lastClos := List.replicate numClosAssocCtlDomain highPriority

/-- `adjust_platform`, and the values that it adjusts the controls to, if any. -/
def adjustPlatform (g : SSTClosGovernor) (closByCore : List Double) :
    Except Exception (SSTClosGovernor × Option (List Double)) :=
  if closByCore.length ≠ g.numClosAssocCtlDomain then
    .error ⟨"SSTClosGovernorImp::adjust_platform(): size of request vector does not match size of " ++
      "control domain.", [], .invalid⟩
  else
    let g' := { g with doWriteBatch := g.isEnabled && !Double.eqVec closByCore g.lastClos }
    if g.isEnabled then .ok ({ g' with lastClos := closByCore }, some closByCore)
    else .ok (g', none)

end SSTClosGovernor

/-- A run of the governor: its controls, whether the prioritization is enabled on the platform, and
the last request that was made while it was enabled. -/
structure SSTClosRun where
  governor : SSTClosGovernor
  controls : Controls
  corePriorityEnable : Bool
  turboEnable : Bool
  expected : List Double

/-- The calls of a governor of classes of service. -/
inductive SSTClosCall where
  | enableSstTurboPrioritization
  | disableSstTurboPrioritization
  | adjustPlatform (closByCore : List Double)

namespace SSTClosRun

/-- A governor that has been set up, which starts everything in the class of high priority. -/
def start (numClosAssocCtlDomain : ℕ) : SSTClosRun where
  governor := .init numClosAssocCtlDomain
  controls := ⟨[], List.replicate numClosAssocCtlDomain highPriority⟩
  corePriorityEnable := true
  turboEnable := true
  expected := List.replicate numClosAssocCtlDomain highPriority

/-- A call; one that throws changes nothing. -/
def next (s : SSTClosRun) : SSTClosCall → SSTClosRun
  | .enableSstTurboPrioritization =>
    { s with
      governor := { s.governor with isEnabled := true }
      corePriorityEnable := true
      turboEnable := true }
  | .disableSstTurboPrioritization =>
    { s with
      governor := { s.governor with isEnabled := false }
      corePriorityEnable := false
      turboEnable := false }
  | .adjustPlatform closByCore =>
    match s.governor.adjustPlatform closByCore with
    | .error _ => s
    | .ok (governor, some adjusted) =>
      { s with
        governor
        controls := s.controls.adjustAndWrite adjusted governor.doWriteBatch
        expected := closByCore }
    | .ok (governor, none) =>
      { s with
        governor
        controls := if governor.doWriteBatch then s.controls.writeBatch else s.controls }

/-- The last request that was made while the governor was enabled is in force. -/
def Truthful (s : SSTClosRun) : Prop := Double.SameVec s.controls.setting s.expected

/-- What asks for the classes, and what is in force. -/
def writeback (s : SSTClosRun) : Writeback (List Double) := ⟨s.governor.lastClos, s.controls.setting⟩

/-- The last request that was made while enabled is what was asked for, and it is in force. -/
structure Inv (s : SSTClosRun) : Prop where
  lastClos : s.governor.lastClos = s.expected
  coherent : s.writeback.Coherent Double.SameVec

theorem Inv.truthful {s : SSTClosRun} (h : s.Inv) : s.Truthful := by
  rw [Truthful, ← h.lastClos]
  exact h.coherent

/-- Every call keeps the invariant: the flag may be left out for the last request only. -/
theorem Inv.next {s : SSTClosRun} (h : s.Inv) (l : SSTClosCall) : (s.next l).Inv := by
  cases l with
  | enableSstTurboPrioritization => exact ⟨h.lastClos, h.coherent⟩
  | disableSstTurboPrioritization => exact ⟨h.lastClos, h.coherent⟩
  | adjustPlatform closByCore =>
    by_cases hlength : closByCore.length ≠ s.governor.numClosAssocCtlDomain
    · have hnext : s.next (.adjustPlatform closByCore) = s := by
        simp [SSTClosRun.next, SSTClosGovernor.adjustPlatform, hlength]
      rw [hnext]
      exact h
    · cases henabled : s.governor.isEnabled with
      | false =>
        have hnext : s.next (.adjustPlatform closByCore) =
            { s with governor := { s.governor with doWriteBatch := false } } := by
          simp [SSTClosRun.next, SSTClosGovernor.adjustPlatform, hlength, henabled]
        rw [hnext]
        exact ⟨h.lastClos, h.coherent⟩
      | true =>
        have hset : (s.next (.adjustPlatform closByCore)).writeback =
            s.writeback.set closByCore (!Double.eqVec closByCore s.governor.lastClos) := by
          simp [SSTClosRun.next, SSTClosGovernor.adjustPlatform, hlength, henabled, writeback,
            Writeback.set]
        have hlast := congrArg Writeback.last hset
        refine ⟨hlast.trans ?_, ?_⟩
        · simp [SSTClosRun.next, SSTClosGovernor.adjustPlatform, hlength, henabled]
        · rw [hset, Writeback.coherent_set_iff Double.sameVec_equivalence h.coherent]
          cases heq : Double.eqVec closByCore s.governor.lastClos with
          | false => exact .inl rfl
          | true => exact .inr (sameVec_of_eqVec heq).symm

theorem inv_start (numClosAssocCtlDomain : ℕ) : (start numClosAssocCtlDomain).Inv :=
  ⟨rfl, Double.sameVec_equivalence.refl _⟩

theorem along_truthful (numClosAssocCtlDomain : ℕ) (calls : List SSTClosCall) :
    Lts.Along (fun s l => (s.next l).Truthful) next (start numClosAssocCtlDomain) calls := by
  refine (Lts.along_iff_along (I := Inv) (A := fun _ _ => True) (D := fun _ _ => True)
    (fun s l h _ => ⟨fun _ => trivial, fun _ => (h.next l).truthful⟩) (fun s l h _ _ => h.next l)
    (inv_start numClosAssocCtlDomain) ?_).mpr ?_
  all_goals exact Lts.along_of_forall fun _ _ _ => trivial

end SSTClosRun

/-! ### All three -/

/-- The flags of the three governors are truthful: in every run what was asked for last is in force
after each call. -/
def FlagsTruthful (frequency : FrequencyRun) (frequencyCalls : List FrequencyCall)
    (power : PowerRun) (powerCalls : List PowerCall)
    (sst : SSTClosRun) (sstCalls : List SSTClosCall) : Prop :=
  Lts.Along (fun s l => (s.next l).Truthful) FrequencyRun.next frequency frequencyCalls ∧
    Lts.Along (fun s l => (s.next l).Truthful) PowerRun.next power powerCalls ∧
    Lts.Along (fun s l => (s.next l).Truthful) SSTClosRun.next sst sstCalls

/-- The flags are truthful exactly in the runs in which no request that repeats the last frequencies
is clamped, and the variable for the power holds the sum in force whenever nothing is set. -/
theorem flags_truthful_iff (platFreqMin platFreqMax freqSticker : Double)
    (frequencySetting : List Double) (frequencyCalls : List FrequencyCall)
    (minPkgPowerSetting maxPkgPowerSetting : Double) (powerSetting : List Double)
    (hpower : 0 < powerSetting.length) (powerCalls : List PowerCall)
    (numClosAssocCtlDomain : ℕ) (sstCalls : List SSTClosCall) :
    FlagsTruthful (.start platFreqMin platFreqMax freqSticker frequencySetting) frequencyCalls
        (.start minPkgPowerSetting maxPkgPowerSetting powerSetting hpower) powerCalls
        (.start numClosAssocCtlDomain) sstCalls ↔
      Lts.Along FrequencyRun.Governed FrequencyRun.next
          (.start platFreqMin platFreqMax freqSticker frequencySetting) frequencyCalls ∧
        Lts.Along PowerRun.Governed PowerRun.next
          (.start minPkgPowerSetting maxPkgPowerSetting powerSetting hpower) powerCalls := by
  rw [FlagsTruthful, FrequencyRun.along_truthful_iff, PowerRun.along_truthful_iff]
  exact and_congr_right fun _ => and_iff_left (SSTClosRun.along_truthful _ _)

/-- Lower bounds are followed by a lower request, and the power is asked for once. -/
theorem flags_truthful_lowered :
    FlagsTruthful (.start (.num 1) (.num 5) (.num 4) [.num 1])
      [.adjustPlatform [.num 3], .setFrequencyBounds (.num 1) (.num 2), .adjustPlatform [.num 4]]
      (.start (.num 50) (.num 150) [.num 60, .num 60] (by decide)) [.adjustPlatform (.num 200) .nan]
      (.start 1) [.adjustPlatform [lowPriority], .disableSstTurboPrioritization,
        .adjustPlatform [highPriority]] := by
  refine (flags_truthful_iff _ _ _ _ _ _ _ _ (by decide) _ _ _).mpr ⟨⟨?_, trivial, ?_, trivial⟩, ?_,
    trivial⟩
  · exact fun heq => absurd heq (by decide)
  · exact fun heq => absurd heq (by decide)
  · exact fun hset => absurd hset (by decide)

/-- A request that was in force stays in force after the bounds have been lowered, and a variable for
the power that is not set holds no sum. -/
theorem not_flags_truthful :
    ¬ FlagsTruthful (.start (.num 1) (.num 5) (.num 4) [.num 1])
        [.adjustPlatform [.num 3], .setFrequencyBounds (.num 1) (.num 2), .adjustPlatform [.num 3]]
        (.start (.num 50) (.num 150) [.num 60, .num 60] (by decide)) [] (.start 1) [] ∧
      ¬ FlagsTruthful (.start (.num 1) (.num 5) (.num 4) [.num 1]) []
        (.start (.num 50) (.num 150) [.num 60, .num 60] (by decide))
        [.adjustPlatform (.num 200) .nan, .adjustPlatform (.num 200) .nan] (.start 1) [] := by
  constructor
  · rintro ⟨⟨-, -, htruthful, -⟩, -⟩
    exact absurd (htruthful _ rfl) (by decide)
  · rintro ⟨-, hpower, -⟩
    obtain ⟨-, hgoverned, -⟩ := (PowerRun.along_truthful_iff _ _ _ _ _).mp hpower
    exact absurd (hgoverned (.inr (by decide +kernel))) (by decide +kernel)

end Geopm.Governor
