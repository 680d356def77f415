import Geopm.Lib.Lts
import Geopm.Pio.PlatformTopo
import Geopm.Pio.SaveControl

/-!
# The frequency limits that `NVMLIOGroup` remembers

A device takes the minimum and the maximum of its clocks together while users write one at a time,
so the IOGroup remembers both requests of each GPU.

* `writeControl`, `writeBatch`, `restoreControl`, `restoreControlPath` : the operations, with calls
  into the device pool of which any may fail;
* `Truthful` : what is sent beside a request, and what is reported, is in force;
* `limits_inForce` : the operations are right in every run in which no GPU is reset while another limit
  than the default is remembered for it;
* `not_limits_inForce` : a limit that is reported after a restore.
-/

namespace Geopm.NVMLIOGroup

open Lts Prog
open Function (update update_of_ne update_self)
open List hiding get modify set

/-! ### The device pool -/

/-- A call into the device pool. -/
inductive Call where
  | frequencyControlSm (gpuIdx : ℕ) (minFreq maxFreq : ℤ)
  | frequencyResetControl (gpuIdx : ℕ)
  | powerControl (gpuIdx : ℕ) (setting : ℤ)
  | powerLimit (gpuIdx : ℕ)

/-- What a call raises that fails. -/
def Call.failure : Call → Exception
  | .frequencyControlSm gpuIdx _ _ =>
    ⟨"NVMLDevicePool::frequency_control_sm: NVML failed to set sm frequency for GPU %.", [gpuIdx],
      .runtime⟩
  | .frequencyResetControl gpuIdx =>
    ⟨"NVMLDevicePool::frequency_reset_control: NVML failed to reset sm frequency for GPU %.",
      [gpuIdx], .runtime⟩
  | .powerControl gpuIdx _ =>
    ⟨"NVMLDevicePool::power_control: NVML failed to set power limit for GPU %.", [gpuIdx], .runtime⟩
  | .powerLimit gpuIdx =>
    ⟨"NVMLDevicePool::power_limit: NVML failed to get power limit for GPU %.", [gpuIdx], .runtime⟩

/-- The GPUs of a node. -/
structure Gpus where
  numGpu : ℕ
  isPrivilegedAccess : Bool
  frequencySupportedSm : ℕ → List ℕ
  /-- What is cast to an `int` that is not in its range. -/
  outOfRange : Double → ℤ
  /-- The constructor refuses a GPU without supported frequencies. -/
  nonempty : ∀ gpu, frequencySupportedSm gpu ≠ []
  inRange : ∀ gpu, ∀ freq ∈ frequencySupportedSm gpu, freq < 2 ^ 31

/-- The controls. -/
inductive Control where
  | maxFrequency
  | minFrequency
  | resetFrequency
  | powerLimit
deriving DecidableEq

/-- The IOGroup and the devices. -/
structure State where
  frequencyMinControlRequest : ℕ → Double
  frequencyMaxControlRequest : ℕ → Double
  initialPowerLimit : ℕ → ℤ := fun _ => 0
  controlPushed : List (Control × ℕ) := []
  setting : Control → ℕ → Double := fun _ _ => .num 0
  isAdjusted : Control → ℕ → Bool := fun _ _ => false
  /-- The settings that have been saved to a file. -/
  saved : Option (List Pio.Setting) := none
  /-- The range to which the clocks of each device are locked. -/
  range : ℕ → ℤ × ℤ
  power : ℕ → ℤ
  /-- The partner limits that have been sent, each with the one that was in force. -/
  journal : List (ℤ × ℤ) := []
  /-- Which calls of the operation fail, by their number. -/
  fails : ℕ → Call → Bool := fun _ _ => false
  calls : ℕ := 0

/-- The `m_is_adjusted` of a control. -/
def State.mark (s : State) (control : Control) (gpu : ℕ) (isAdjusted : Bool) : State :=
  { s with isAdjusted :=
      update s.isAdjusted control (update (s.isAdjusted control) gpu isAdjusted) }

abbrev Nvml := EStateM Exception State

/-- A call into the device pool, and what it does unless it fails. -/
def device (call : Call) (done : State → State) : Nvml Unit := do
  let s ← get
  set { s with calls := s.calls + 1 }
  if s.fails s.calls call then throw call.failure else modify done

namespace Gpus

variable (g : Gpus)

/-- The supported frequencies, which the constructor sorts. -/
def supportedFreq (gpu : ℕ) : List ℕ := (g.frequencySupportedSm gpu).insertionSort (· ≤ ·)

def front (gpu : ℕ) : ℕ := (g.supportedFreq gpu).headD 0

def back (gpu : ℕ) : ℕ := (g.supportedFreq gpu).getLastD 0

/-- The range to which a device is reset. -/
def defaultRange (gpu : ℕ) : ℤ × ℤ := (g.front gpu, g.back gpu)

/-- A product with a positive number. -/
def scale (factor : ℚ) : Double → Double
  | .num x => .num (x * factor)
  | x => x

/-- The cast to `int`. -/
def toInt (x : Double) : ℤ :=
  match x with
  | .num q =>
    if -2 ^ 31 ≤ q.num.tdiv q.den ∧ q.num.tdiv q.den < 2 ^ 31 then q.num.tdiv q.den
    else g.outOfRange x
  | .negZero => 0
  | _ => g.outOfRange x

/-- A frequency in hertz, as it is sent. -/
def megahertz (x : Double) : ℤ := g.toInt (scale (1 / 1000000) x)

/-- The request for a supported frequency. -/
def hertz (freq : ℕ) : Double := .num (freq * 1000000)

/-- The IOGroup when it has been constructed, and devices that are not locked. -/
def start (power : ℕ → ℤ) : State where
  frequencyMinControlRequest gpu := hertz (g.front gpu)
  frequencyMaxControlRequest gpu := hertz (g.back gpu)
  range := g.defaultRange
  power

/-! ### The controls -/

/-- `m_control_available`, in the order of the names, with the aliases. -/
def controlAvailable : List (String × Control) :=
  if g.isPrivilegedAccess then
    [("GPU_CORE_FREQUENCY_MAX_CONTROL", .maxFrequency),
      ("GPU_CORE_FREQUENCY_MIN_CONTROL", .minFrequency),
      ("GPU_POWER_LIMIT_CONTROL", .powerLimit),
      ("NVML::GPU_CORE_FREQUENCY_MAX_CONTROL", .maxFrequency),
      ("NVML::GPU_CORE_FREQUENCY_MIN_CONTROL", .minFrequency),
      ("NVML::GPU_CORE_FREQUENCY_RESET_CONTROL", .resetFrequency),
      ("NVML::GPU_POWER_LIMIT_CONTROL", .powerLimit)]
  else []

/-- The checks of a name, of the domain and of its index. -/
def checked (method name : String) (domainType domainIdx : ℤ) : Except Exception (Control × ℕ) :=
  match g.controlAvailable.lookup name with
  | none => .error ⟨method ++ name ++ " not valid for NVMLIOGroup", [], .invalid⟩
  | some control =>
    if domainType ≠ Pio.DomainType.gpu.num then
      .error ⟨method ++ name ++ ": domain_type must be %", [Pio.DomainType.gpu.num], .invalid⟩
    else if domainIdx < 0 ∨ g.numGpu ≤ domainIdx then
      .error ⟨method ++ "domain_idx out of range.", [], .invalid⟩
    else .ok (control, domainIdx.toNat)

/-- The minimum that is sent with a maximum. -/
def minRequest (s : State) (gpu : ℕ) : Double :=
  if !(s.frequencyMinControlRequest gpu).isNan then s.frequencyMinControlRequest gpu
  else hertz (g.front gpu)

/-- The maximum that is sent with a minimum. -/
def maxRequest (s : State) (gpu : ℕ) : Double :=
  if !(s.frequencyMaxControlRequest gpu).isNan then s.frequencyMaxControlRequest gpu
  else hertz (g.back gpu)

/-- The clocks of a device are locked to a range. -/
def frequencyControlSm (gpu : ℕ) (minFreq maxFreq : ℤ) : Nvml Unit :=
  device (.frequencyControlSm gpu minFreq maxFreq) fun s =>
    { s with range := update s.range gpu (minFreq, maxFreq) }

def frequencyResetControl (gpu : ℕ) : Nvml Unit :=
  device (.frequencyResetControl gpu) fun s =>
    { s with range := update s.range gpu (g.defaultRange gpu) }

def powerControl (gpu : ℕ) (setting : ℤ) : Nvml Unit :=
  device (.powerControl gpu setting) fun s => { s with power := update s.power gpu setting }

/-- The write of a control that has passed the checks. -/
def write (gpu : ℕ) (setting : Double) : Control → Nvml Unit
  | .maxFrequency => do
    let s ← get
    let partner := g.megahertz (g.minRequest s gpu)
    set { s with journal := (partner, (s.range gpu).1) :: s.journal }
    frequencyControlSm gpu partner (g.megahertz setting)
    modify fun s => { s with
      frequencyMaxControlRequest := update s.frequencyMaxControlRequest gpu setting }
  | .minFrequency => do
    let s ← get
    let partner := g.megahertz (g.maxRequest s gpu)
    set { s with journal := (partner, (s.range gpu).2) :: s.journal }
    frequencyControlSm gpu (g.megahertz setting) partner
    modify fun s => { s with
      frequencyMinControlRequest := update s.frequencyMinControlRequest gpu setting }
  | .resetFrequency => g.frequencyResetControl gpu
  | .powerLimit => powerControl gpu (g.toInt (scale 1000 setting))

def writeControl (name : String) (domainType domainIdx : ℤ) (setting : Double) : Nvml Unit := do
  let (control, gpu) ← ret (g.checked "NVMLIOGroup::write_control: " name domainType domainIdx)
  g.write gpu setting control

def pushControl (name : String) (domainType domainIdx : ℤ) : Nvml ℕ := do
  let control ← ret (g.checked "NVMLIOGroup::push_control: control_name " name domainType domainIdx)
  let s ← get
  if control ∈ s.controlPushed then pure (s.controlPushed.idxOf control)
  else do
    set { s with controlPushed := s.controlPushed ++ [control] }
    pure s.controlPushed.length

/-- `NVMLIOGroup::adjust`. -/
def adjust (batchIdx : ℤ) (setting : Double) : Nvml Unit := do
  let s ← get
  match if batchIdx < 0 then none else s.controlPushed[batchIdx.toNat]? with
  | none => throw ⟨"NVMLIOGroup::adjust(): batch_idx % out of range", [batchIdx], .invalid⟩
  | some (control, gpu) =>
    set { s.mark control gpu true with
      setting := update s.setting control (update (s.setting control) gpu setting) }

/-- One control of a pass of `write_batch`. -/
def writeAdjusted (doThrow doRetry : Bool) (entry : String × Control × ℕ) : Nvml Bool := do
  let (name, control, gpu) := entry
  let s ← get
  if s.isAdjusted control gpu then
    tryCatch (do
      g.writeControl name Pio.DomainType.gpu.num gpu (s.setting control gpu)
      modify fun s => s.mark control gpu false
      pure doRetry) fun ex => if doThrow then throw ex else pure true
  else pure doRetry

/-- A pass of `write_batch` says whether another one is needed. -/
def writePass (doThrow : Bool) : Nvml Bool :=
  (g.controlAvailable.flatMap fun entry => (List.range g.numGpu).map fun gpu =>
    (entry.1, entry.2, gpu)).foldlM (g.writeAdjusted doThrow) false

def writeBatch : Nvml Unit := do
  if ← g.writePass false then discard (g.writePass true)

/-! ### Saving and restoring -/

def saveControl : Nvml Unit :=
  (List.range g.numGpu).forM fun gpu => device (.powerLimit gpu) fun s =>
    { s with initialPowerLimit := update s.initialPowerLimit gpu (s.power gpu) }

def restoreControl : Nvml Unit :=
  (List.range g.numGpu).forM fun gpu => tryCatch (do
    powerControl gpu ((← get).initialPowerLimit gpu)
    g.frequencyResetControl gpu) fun _ => pure ()

/-- The settings of a GPU that are saved to a file. -/
def settings (power : ℕ → ℤ) (gpu : ℕ) : List Pio.Setting :=
  [⟨"NVML::GPU_CORE_FREQUENCY_RESET_CONTROL", Pio.DomainType.gpu.num, gpu, .num 0⟩,
    ⟨"NVML::GPU_POWER_LIMIT_CONTROL", Pio.DomainType.gpu.num, gpu, .num (power gpu / 1000)⟩]

/-- `NVMLIOGroup::save_control` with a path. -/
def saveControlPath : Nvml Unit := do
  (List.range g.numGpu).forM fun gpu => device (.powerLimit gpu) id
  modify fun s => { s with saved := some ((List.range g.numGpu).flatMap (settings s.power)) }

/-- Whether a setting has been restored. -/
def restoreSetting (ss : Pio.Setting) : Nvml Bool :=
  if !ss.setting.isFinite then pure true
  else tryCatch (do
    g.writeControl ss.name ss.domainType ss.domainIdx ss.setting
    pure true) fun _ => pure false

/-- An attempt of `SaveControlImp::restore`, and the settings that are left. -/
def restorePass : List Pio.Setting → Nvml (List Pio.Setting)
  | [] => pure []
  | ss :: rest => do
    let isRestored ← g.restoreSetting ss
    let unwritten ← restorePass rest
    pure (if isRestored then unwritten else ss :: unwritten)

/-- `NVMLIOGroup::restore_control` with a path. -/
def restoreControlPath : Nvml Unit := do
  match (← get).saved with
  | none => throw ⟨"read_file(): unable to open file", [], .runtime⟩
  | some settings =>
    let unwritten ← g.restorePass settings
    let unwritten ← g.restorePass unwritten
    match Pio.restoreError (unwritten.map (·.name)).toFinset with
    | some ex => throw ex
    | none => pure ()

/-! ### Runs -/

/-- An operation of a user. -/
inductive Op where
  | writeControl (name : String) (domainType domainIdx : ℤ) (setting : Double)
  | pushControl (name : String) (domainType domainIdx : ℤ)
  | adjust (batchIdx : ℤ) (setting : Double)
  | writeBatch
  | saveControl
  | restoreControl
  | saveControlPath
  | restoreControlPath

/-- What an operation does. -/
def run : Op → Nvml Unit
  | .writeControl name domainType domainIdx setting =>
    g.writeControl name domainType domainIdx setting
  | .pushControl name domainType domainIdx => discard (g.pushControl name domainType domainIdx)
  | .adjust batchIdx setting => adjust batchIdx setting
  | .writeBatch => g.writeBatch
  | .saveControl => g.saveControl
  | .restoreControl => g.restoreControl
  | .saveControlPath => g.saveControlPath
  | .restoreControlPath => g.restoreControlPath

/-- The state in which an operation begins, and those of its calls that fail. -/
def begins (s : State) (event : (ℕ → Call → Bool) × Op) : State :=
  { s with fails := event.1, calls := 0 }

/-- The state that an operation leaves, whether it returns or raises. -/
def next (s : State) (event : (ℕ → Call → Bool) × Op) : State :=
  final (g.run event.2) (begins s event)

/-- What has been sent beside each request was in force, and what the signals report is. -/
structure Truthful (s : State) : Prop where
  sent : ∀ partner ∈ s.journal, partner.1 = partner.2
  min : ∀ gpu < g.numGpu, (s.frequencyMinControlRequest gpu).isNan = false →
    g.megahertz (s.frequencyMinControlRequest gpu) = (s.range gpu).1
  max : ∀ gpu < g.numGpu, (s.frequencyMaxControlRequest gpu).isNan = false →
    g.megahertz (s.frequencyMaxControlRequest gpu) = (s.range gpu).2

/-- The operation is a restore, and frequency resets are possible. -/
def Restores (s : State) (event : (ℕ → Call → Bool) × Op) : Prop :=
  (event.2 = .restoreControl ∨
    event.2 = .restoreControlPath ∧ g.isPrivilegedAccess = true ∧ s.saved ≠ none) ∧
    ∀ k, ∀ gpu < g.numGpu, event.1 k (.frequencyResetControl gpu) = false

/-- **An operation is right** : it sends and leaves limits that are in force, and a restore leaves the
default ranges. -/
structure Right (s : State) (event : (ℕ → Call → Bool) × Op) : Prop where
  truthful : g.Truthful (g.next s event)
  restored : g.Restores s event → ∀ gpu < g.numGpu, (g.next s event).range gpu = g.defaultRange gpu

/-- What is remembered for a GPU is its default range. -/
def IsDefault (s : State) (gpu : ℕ) : Prop :=
  (g.megahertz (g.minRequest s gpu), g.megahertz (g.maxRequest s gpu)) = g.defaultRange gpu

/-- An operation may write a setting to a control. -/
def Writes (s : State) (control : Control) (gpu : ℕ) (setting : Double) : Op → Prop
  | .writeControl name domainType domainIdx setting' =>
    g.checked "NVMLIOGroup::write_control: " name domainType domainIdx = .ok (control, gpu) ∧
      setting' = setting
  | .writeBatch => s.isAdjusted control gpu = true ∧ s.setting control gpu = setting
  | .restoreControl | .restoreControlPath => control = .resetFrequency
  | _ => False

/-- The frequency of a GPU may be reset. -/
def Resets (s : State) (event : (ℕ → Call → Bool) × Op) (gpu : ℕ) : Prop :=
  (∃ setting, g.Writes s .resetFrequency gpu setting event.2) ∧
    ∃ k, event.1 k (.frequencyResetControl gpu) = false

/-- **No limit is forgotten** : a GPU is reset only when its default range is remembered and no limit is
written in the same operation, and no limit is NaN. -/
structure Spares (s : State) (event : (ℕ → Call → Bool) × Op) : Prop where
  isDefault : ∀ gpu < g.numGpu, g.Resets s event gpu → g.IsDefault s gpu
  unwritten : ∀ gpu < g.numGpu, ∀ control setting,
    control = .minFrequency ∨ control = .maxFrequency →
    g.Writes s control gpu setting event.2 → setting.isNan = false ∧ ¬ g.Resets s event gpu

/-! ### What the operations keep -/

section Lemmas

variable {g : Gpus} {s s' : State} {R : ℕ → Prop} {F : ℕ → Call → Bool} {gpu : ℕ} {x : Double}
  {A : Control → ℕ → Double → Prop} {control : Control} {event : (ℕ → Call → Bool) × Op}

/-- What is remembered is in force, no GPU that may be reset has a limit, only resets and power limits
have been saved, and what is adjusted is of a kind. -/
structure Inv (g : Gpus) (F : ℕ → Call → Bool) (R : ℕ → Prop) (A : Control → ℕ → Double → Prop)
    (s : State) : Prop where
  fails : s.fails = F
  sent : ∀ partner ∈ s.journal, partner.1 = partner.2
  inForce : ∀ gpu < g.numGpu,
    s.range gpu = (g.megahertz (g.minRequest s gpu), g.megahertz (g.maxRequest s gpu))
  isDefault : ∀ gpu < g.numGpu, R gpu → g.IsDefault s gpu
  saved : ∀ settings ∈ s.saved, ∀ ss ∈ settings, ∀ control gpu,
    g.checked "NVMLIOGroup::write_control: " ss.name ss.domainType ss.domainIdx =
      .ok (control, gpu) → control = .resetFrequency ∨ control = .powerLimit
  adjusted : ∀ control gpu, s.isAdjusted control gpu = true → A control gpu (s.setting control gpu)

/-- A write that forgets no limit. -/
def Allowed (F : ℕ → Call → Bool) (R : ℕ → Prop) (gpu : ℕ) (x : Double) : Control → Prop
  | .minFrequency | .maxFrequency => x.isNan = false ∧ ¬ R gpu
  | .resetFrequency => R gpu ∨ ∀ k, F k (.frequencyResetControl gpu) = true
  | .powerLimit => True

theorem wp_device {call : Call} {done : State → State} {Q : Unit → State → Prop}
    {E : Exception → State → Prop} (hQ : s.fails s.calls call = false →
      Q () (done { s with calls := s.calls + 1 }))
    (hE : ∀ e, E e { s with calls := s.calls + 1 }) : wp (device call done) Q E s := by
  rw [device, wp_bind, wp_get, wp_bind, wp_set, wp_ite]
  refine ⟨fun _ => hE _, fun h => ?_⟩
  exact hQ (by simpa using h)

section

variable (h : Inv g F R A s)
include h

theorem Inv.called (n : ℕ) : Inv g F R A { s with calls := n } :=
  ⟨h.fails, h.sent, h.inForce, h.isDefault, h.saved, h.adjusted⟩

theorem Inv.send {a b : ℤ} (hab : a = b) :
    Inv g F R A { s with journal := (a, b) :: s.journal } :=
  ⟨h.fails, forall_mem_cons.mpr ⟨hab, h.sent⟩, h.inForce, h.isDefault, h.saved, h.adjusted⟩

/-- The range and the requests of one GPU change. -/
theorem Inv.change (gpu : ℕ) (hsame : (s'.fails, s'.journal, s'.saved, s'.isAdjusted,
      s'.setting) = (s.fails, s.journal, s.saved, s.isAdjusted, s.setting))
    (hother : ∀ gpu' ≠ gpu, s'.range gpu' = s.range gpu' ∧
      g.minRequest s' gpu' = g.minRequest s gpu' ∧ g.maxRequest s' gpu' = g.maxRequest s gpu')
    (hself : s'.range gpu =
      (g.megahertz (g.minRequest s' gpu), g.megahertz (g.maxRequest s' gpu)))
    (hdefault : R gpu → g.IsDefault s' gpu) : Inv g F R A s' := by
  simp only [Prod.mk.injEq] at hsame
  obtain ⟨hfails, hjournal, hsaved, hadjusted, hsetting⟩ := hsame
  refine ⟨hfails ▸ h.fails, hjournal ▸ h.sent, fun gpu' hgpu' => ?_, fun gpu' hgpu' hR => ?_,
    hsaved ▸ h.saved, hadjusted ▸ hsetting ▸ h.adjusted⟩
  · by_cases heq : gpu' = gpu
    · exact heq ▸ hself
    · obtain ⟨hrange, hmin, hmax⟩ := hother gpu' heq
      rw [hrange, hmin, hmax]
      exact h.inForce gpu' hgpu'
  · by_cases heq : gpu' = gpu
    · exact heq ▸ hdefault (heq ▸ hR)
    · obtain ⟨-, hmin, hmax⟩ := hother gpu' heq
      rw [IsDefault, hmin, hmax]
      exact h.isDefault gpu' hgpu' hR

theorem wp_powerControl (setting : ℤ) :
    wp (powerControl gpu setting) (fun _ => Inv g F R A) (fun _ => Inv g F R A) s :=
  wp_device (fun _ => ⟨h.fails, h.sent, h.inForce, h.isDefault, h.saved, h.adjusted⟩)
    fun _ => h.called _

theorem wp_frequencyResetControl (hgpu : gpu < g.numGpu)
    (hallowed : Allowed F R gpu x .resetFrequency) :
    wp (g.frequencyResetControl gpu) (fun _ => Inv g F R A) (fun _ => Inv g F R A) s := by
  refine wp_device (fun hdone => ?_) fun _ => h.called _
  have hR : R gpu := by
    refine hallowed.resolve_right fun hall => ?_
    rw [h.fails, hall] at hdone
    cases hdone
  have hdefault := h.isDefault gpu hgpu hR
  refine h.change gpu rfl (fun gpu' hne => ⟨?_, rfl, rfl⟩) ?_ fun _ => hdefault
  · exact update_of_ne hne _ _
  · exact (update_self _ _ _).trans hdefault.symm

/-- **A write that forgets no limit keeps what is remembered in force.** -/
theorem wp_write (hgpu : gpu < g.numGpu)
    (hallowed : Allowed F R gpu x control) :
    wp (g.write gpu x control) (fun _ => Inv g F R A) (fun _ => Inv g F R A) s := by
  cases control with
  | maxFrequency =>
    have hsend := h.send (congrArg Prod.fst (h.inForce gpu hgpu)).symm
    rw [write, wp_bind, wp_get, wp_bind, wp_set, wp_bind]
    refine wp_device (fun _ => ?_) fun _ => hsend.called _
    refine hsend.change gpu rfl (fun gpu' hne => ⟨?_, rfl, ?_⟩) ?_
      fun hR => absurd hR hallowed.2
    · exact update_of_ne hne _ _
    · simp only [maxRequest, update_of_ne hne]
    · simp only [maxRequest, update_self, hallowed.1]
      rfl
  | minFrequency =>
    have hsend := h.send (congrArg Prod.snd (h.inForce gpu hgpu)).symm
    rw [write, wp_bind, wp_get, wp_bind, wp_set, wp_bind]
    refine wp_device (fun _ => ?_) fun _ => hsend.called _
    refine hsend.change gpu rfl (fun gpu' hne => ⟨?_, ?_, rfl⟩) ?_
      fun hR => absurd hR hallowed.2
    · exact update_of_ne hne _ _
    · simp only [minRequest, update_of_ne hne]
    · simp only [minRequest, update_self, hallowed.1]
      rfl
  | resetFrequency => exact wp_frequencyResetControl h hgpu hallowed
  | powerLimit => exact wp_powerControl h _

end

theorem lt_of_checked {method name : String} {domainType domainIdx : ℤ}
    (h : g.checked method name domainType domainIdx = .ok (control, gpu)) :
    g.controlAvailable.lookup name = some control ∧ domainIdx = gpu ∧ gpu < g.numGpu := by
  unfold checked at h
  split at h
  · cases h
  · rename_i hlookup
    split_ifs at h with htype hidx
    cases h
    exact ⟨hlookup, by omega, by omega⟩

theorem wp_writeControl {name : String} {domainType domainIdx : ℤ} (h : Inv g F R A s)
    (hallowed : ∀ control gpu, g.checked "NVMLIOGroup::write_control: " name domainType domainIdx =
      .ok (control, gpu) → gpu < g.numGpu → Allowed F R gpu x control) :
    wp (g.writeControl name domainType domainIdx x) (fun _ => Inv g F R A) (fun _ => Inv g F R A)
      s := by
  rw [writeControl, wp_bind]
  refine wp_ret_of (fun target hchecked => ?_) fun _ _ => h
  have hgpu := (lt_of_checked hchecked).2.2
  exact wp_write h hgpu (hallowed _ _ hchecked hgpu)

theorem wp_writeBatch (h : Inv g F R A s)
    (hA : ∀ control gpu x, gpu < g.numGpu → A control gpu x → Allowed F R gpu x control) :
    wp g.writeBatch (fun _ => Inv g F R A) (fun _ => Inv g F R A) s := by
  have hlookup : ∀ entry ∈ g.controlAvailable,
      g.controlAvailable.lookup entry.1 = some entry.2 := by
    unfold controlAvailable
    cases g.isPrivilegedAccess with
    | false => exact nofun
    | true => decide
  have hpass : ∀ doThrow s, Inv g F R A s →
      wp (g.writePass doThrow) (fun _ => Inv g F R A) (fun _ => Inv g F R A) s := by
    intro doThrow s h
    refine wp_foldlM h fun entry hentry doRetry s h => ?_
    obtain ⟨⟨name, control⟩, hmem, hentry⟩ := mem_flatMap.mp hentry
    obtain ⟨gpu, hgpu, rfl⟩ := mem_map.mp hentry
    rw [writeAdjusted, wp_bind, wp_get, wp_ite]
    refine ⟨fun hadjusted => ?_, fun _ => h⟩
    rw [wp_tryCatch, wp_bind]
    refine wp_mono (wp_writeControl h fun control' gpu' hchecked hlt => ?_) (fun _ s' hs' => ?_)
      fun _ s' hs' => ?_
    · obtain ⟨hname, hidx, -⟩ := lt_of_checked hchecked
      obtain rfl := Option.some.inj ((hlookup _ hmem).symm.trans hname)
      obtain rfl := Int.ofNat.inj hidx
      exact hA _ _ _ hlt (h.adjusted _ _ hadjusted)
    · refine ⟨hs'.fails, hs'.sent, hs'.inForce, hs'.isDefault, hs'.saved, fun c d hc => ?_⟩
      refine hs'.adjusted c d ?_
      by_contra hnot
      simp only [State.mark, Function.update_apply] at hc
      grind
    · cases doThrow <;> exact hs'
  rw [writeBatch, wp_bind]
  refine wp_mono_ok (hpass false s h) fun doRetry s' hs' => ?_
  rw [wp_ite]
  exact ⟨fun _ => wp_map.mpr (hpass true s' hs'), fun _ => hs'⟩

theorem wp_restorePass (settings : List Pio.Setting) (h : Inv g F R A s)
    (hsettings : ∀ ss ∈ settings, ∀ control gpu,
      g.checked "NVMLIOGroup::write_control: " ss.name ss.domainType ss.domainIdx =
        .ok (control, gpu) → gpu < g.numGpu → Allowed F R gpu ss.setting control) :
    wp (g.restorePass settings)
      (fun unwritten s' => Inv g F R A s' ∧ unwritten ⊆ settings) (fun _ => Inv g F R A) s := by
  induction settings generalizing s with
  | nil => exact ⟨h, List.Subset.refl _⟩
  | cons ss rest ih =>
    have hrest := fun s' hs' => @ih s' hs' fun ss hss => hsettings ss (mem_cons_of_mem _ hss)
    rw [restorePass, wp_bind]
    have hattempt : wp (g.restoreSetting ss) (fun _ => Inv g F R A) (fun _ => Inv g F R A) s := by
      rw [restoreSetting, wp_ite]
      refine ⟨fun _ => h, fun _ => ?_⟩
      rw [wp_tryCatch, wp_bind]
      exact wp_mono (wp_writeControl h (hsettings ss mem_cons_self)) (fun _ _ h => h)
        fun _ _ h => h
    refine wp_mono_ok hattempt fun isRestored s' hs' => ?_
    rw [wp_bind]
    refine wp_mono_ok (hrest s' hs') fun unwritten s'' hs'' => ?_
    rw [wp_pure]
    refine ⟨hs''.1, ?_⟩
    split_ifs
    · exact List.Subset.trans hs''.2 (subset_cons_self _ _)
    · exact cons_subset_cons _ hs''.2

/-- What holds between operations. -/
def Kept (g : Gpus) (s : State) : Prop := Inv g s.fails (fun _ => False) (fun _ _ _ => True) s

theorem Inv.any (h : Inv g F R A s) : Inv g F R (fun _ _ _ => True) s :=
  ⟨h.fails, h.sent, h.inForce, h.isDefault, h.saved, fun _ _ _ => trivial⟩

theorem Inv.kept (h : Inv g F R A s) : g.Kept s :=
  ⟨rfl, h.sent, h.inForce, nofun, h.saved, fun _ _ _ => trivial⟩

theorem Inv.truthful (h : Inv g F R A s) : g.Truthful s := by
  refine ⟨h.sent, fun gpu hgpu hnan => ?_, fun gpu hgpu hnan => ?_⟩
  · rw [h.inForce gpu hgpu, minRequest, hnan]
    rfl
  · rw [h.inForce gpu hgpu, maxRequest, hnan]
    rfl

/-- A supported frequency is sent as it is. -/
theorem megahertz_hertz {freq : ℕ} (h : freq < 2 ^ 31) : g.megahertz (hertz freq) = freq := by
  have hscale : scale (1 / 1000000) (hertz freq) = .num (freq : ℚ) := by
    rw [hertz, scale]
    congr 1
    ring
  rw [megahertz, hscale, toInt]
  simp only [Rat.num_natCast, Rat.den_natCast, Nat.cast_one, Int.tdiv_one]
  exact if_pos ⟨by omega, by omega⟩

theorem kept_start (power : ℕ → ℤ) : g.Kept (g.start power) := by
  have hmem : ∀ {gpu freq}, freq ∈ g.supportedFreq gpu → freq < 2 ^ 31 := fun hfreq =>
    g.inRange _ _ ((mem_insertionSort _).mp hfreq)
  refine ⟨rfl, nofun, fun gpu _ => ?_, nofun, nofun, nofun⟩
  have hne : g.supportedFreq gpu ≠ [] := fun h =>
    g.nonempty gpu (eq_nil_of_length_eq_zero (by
      rw [← length_insertionSort (· ≤ ·), ← supportedFreq, h]; rfl))
  have hfront : g.front gpu ∈ g.supportedFreq gpu := by
    rw [front, headD_eq_head?_getD, head?_eq_some_head hne]
    exact head_mem hne
  have hback : g.back gpu ∈ g.supportedFreq gpu := by
    rw [back, getLastD_eq_getLast?, getLast?_eq_some_getLast hne]
    exact getLast_mem hne
  change g.defaultRange gpu = (g.megahertz (hertz _), g.megahertz (hertz _))
  rw [megahertz_hertz (hmem hfront), megahertz_hertz (hmem hback)]
  rfl

/-- **An operation that forgets no limit keeps what is remembered in force.** -/
theorem inv_next (h : g.Kept s) (hspares : g.Spares s event) :
    Inv g event.1 (g.Resets s event) (fun _ _ _ => True) (g.next s event) := by
  obtain ⟨fails, op⟩ := event
  -- what the operation may write
  have hwrites : ∀ control gpu x, gpu < g.numGpu → g.Writes s control gpu x op →
      Allowed fails (g.Resets s (fails, op)) gpu x control := by
    intro control gpu x hgpu hw
    cases control with
    | maxFrequency => exact hspares.unwritten gpu hgpu _ x (.inr rfl) hw
    | minFrequency => exact hspares.unwritten gpu hgpu _ x (.inl rfl) hw
    | powerLimit => trivial
    | resetFrequency =>
      by_cases hk : ∃ k, fails k (.frequencyResetControl gpu) = false
      · exact .inl ⟨⟨x, hw⟩, hk⟩
      · exact .inr (by simpa using hk)
  have hbegins : ∀ A : Control → ℕ → Double → Prop, (∀ control gpu,
      s.isAdjusted control gpu = true → A control gpu (s.setting control gpu)) →
      Inv g fails (g.Resets s (fails, op)) A (begins s (fails, op)) :=
    fun A hA => ⟨rfl, h.sent, h.inForce, hspares.isDefault, h.saved, hA⟩
  have hany := hbegins (fun _ _ _ => True) fun _ _ _ => trivial
  suffices hrun : wp (g.run op) (fun _ => Inv g fails (g.Resets s (fails, op)) fun _ _ _ => True)
      (fun _ => Inv g fails (g.Resets s (fails, op)) fun _ _ _ => True) (begins s (fails, op)) from
    wp_final.mp hrun
  cases op with
  | writeControl name domainType domainIdx setting =>
    exact wp_writeControl hany fun control gpu hchecked hgpu => hwrites _ _ _ hgpu ⟨hchecked, rfl⟩
  | pushControl name domainType domainIdx =>
    change wp (discard (g.pushControl name domainType domainIdx)) _ _ _
    refine wp_map.mpr ?_
    rw [pushControl, wp_bind]
    refine wp_ret_of (fun control _ => ?_) fun _ _ => hany
    rw [wp_bind, wp_get, wp_ite]
    exact ⟨fun _ => hany, fun _ => ⟨hany.fails, hany.sent, hany.inForce, hany.isDefault, hany.saved,
      fun _ _ _ => trivial⟩⟩
  | adjust batchIdx setting =>
    change wp (adjust batchIdx setting) _ _ _
    rw [adjust, wp_bind, wp_get]
    split
    · exact hany
    · exact ⟨hany.fails, hany.sent, hany.inForce, hany.isDefault, hany.saved, fun _ _ _ => trivial⟩
  | writeBatch =>
    refine wp_mono (wp_writeBatch (hbegins (g.Writes s · · · .writeBatch) fun _ _ h => ⟨h, rfl⟩)
      fun control gpu x hgpu => hwrites control gpu x hgpu) (fun _ _ h => h.any) fun _ _ h => h.any
  | saveControl =>
    refine wp_forM hany fun gpu _ s h => wp_device (fun _ => ?_) fun _ => h.called _
    exact ⟨h.fails, h.sent, h.inForce, h.isDefault, h.saved, h.adjusted⟩
  | restoreControl =>
    refine wp_forM hany fun gpu hgpu s' h => ?_
    have hlt := mem_range.mp hgpu
    rw [wp_tryCatch, wp_bind, wp_get, wp_bind]
    refine wp_mono_ok (wp_powerControl h _) fun _ s'' h => ?_
    exact wp_mono (wp_frequencyResetControl h hlt (hwrites .resetFrequency gpu .nan hlt rfl))
      (fun _ _ h => h) fun _ _ h => h
  | saveControlPath =>
    change wp g.saveControlPath _ _ _
    rw [saveControlPath, wp_bind]
    refine wp_mono_ok (wp_forM hany fun gpu _ s h => wp_device (fun _ => h.called _)
      fun _ => h.called _) fun _ s' h => ?_
    rw [wp_modify]
    refine ⟨h.fails, h.sent, h.inForce, h.isDefault, ?_, h.adjusted⟩
    rintro settings ⟨⟩ ss hss control gpu hchecked
    obtain ⟨gpu', -, hss⟩ := mem_flatMap.mp hss
    have hname := (lt_of_checked hchecked).1
    unfold controlAvailable at hname
    cases hpriv : g.isPrivilegedAccess with
    | false => rw [hpriv] at hname; cases hname
    | true =>
      rw [hpriv] at hname
      simp only [settings, mem_cons, not_mem_nil, or_false] at hss
      obtain rfl | rfl := hss
      · exact .inl (Option.some.inj hname).symm
      · exact .inr (Option.some.inj hname).symm
  | restoreControlPath =>
    change wp g.restoreControlPath _ _ _
    rw [restoreControlPath, wp_bind, wp_get]
    cases hsaved : (begins s (fails, .restoreControlPath)).saved with
    | none => exact hany
    | some settings =>
      have hallowed : ∀ ss ∈ settings, ∀ control gpu,
          g.checked "NVMLIOGroup::write_control: " ss.name ss.domainType ss.domainIdx =
            .ok (control, gpu) → gpu < g.numGpu →
          Allowed fails (g.Resets s (fails, .restoreControlPath)) gpu ss.setting control := by
        intro ss hss control gpu hchecked hgpu
        obtain rfl | rfl := hany.saved settings hsaved ss hss control gpu hchecked
        · exact hwrites .resetFrequency gpu _ hgpu rfl
        · trivial
      dsimp only
      rw [wp_bind]
      refine wp_mono_ok (wp_restorePass settings hany hallowed) fun unwritten s' hs' => ?_
      rw [wp_bind]
      refine wp_mono_ok (wp_restorePass unwritten hs'.1 fun ss hss => hallowed ss (hs'.2 hss))
        fun unwritten s'' hs'' => ?_
      split
      · exact hs''.1
      · exact hs''.1

end Lemmas

variable {g : Gpus}

theorem along_right_of_kept {events : List ((ℕ → Call → Bool) × Op)} {s : State} (h : g.Kept s)
    (hspares : Along g.Spares g.next s events) : Along g.Right g.next s events := by
  induction events generalizing s with
  | nil => trivial
  | cons event events ih =>
    have hinv := inv_next h hspares.1
    refine ⟨⟨hinv.truthful, fun hrestores gpu hgpu => ?_⟩, ih hinv.kept hspares.2⟩
    have hreset : g.Resets s event gpu := by
      refine ⟨⟨.nan, ?_⟩, 0, hrestores.2 0 gpu hgpu⟩
      obtain ⟨fails, op⟩ := event
      obtain h | h := hrestores.1
      · cases h
        rfl
      · cases h.1
        rfl
    exact (hinv.inForce gpu hgpu).trans (hinv.isDefault gpu hgpu hreset)

end Gpus

/-- **What is remembered is in force** in every run in which no limit is forgotten: what is sent beside
each request and what the signals report is in force, and a restore leaves the default ranges. -/
theorem limits_inForce (g : Gpus) (power : ℕ → ℤ) (events : List ((ℕ → Call → Bool) × Gpus.Op))
    (h : Along g.Spares g.next (g.start power) events) :
    Along g.Right g.next (g.start power) events :=
  Gpus.along_right_of_kept (Gpus.kept_start power) h

/-- Two GPUs. -/
def twoGpus : Gpus where
  numGpu := 2
  isPrivilegedAccess := true
  frequencySupportedSm _ := [1500, 1000, 2000]
  outOfRange _ := 0
  nonempty _ := cons_ne_nil _ _
  inRange _ := by decide

/-- A maximum for the first GPU. -/
def writeMax : Gpus.Op :=
  .writeControl "GPU_CORE_FREQUENCY_MAX_CONTROL" Pio.DomainType.gpu.num 0 (.num 1500000000)

theorem limits_inForce_twoGpus : Along twoGpus.Right twoGpus.next (twoGpus.start fun _ => 0)
    [(fun _ _ => false, writeMax), (fun _ _ => true, .restoreControl)] := by
  refine limits_inForce twoGpus _ _ ⟨⟨?_, ?_⟩, ⟨?_, ?_⟩, trivial⟩
  · rintro gpu - ⟨⟨setting, hchecked, -⟩, -⟩
    cases hchecked
  · rintro gpu - control setting - ⟨-, rfl⟩
    refine ⟨rfl, ?_⟩
    rintro ⟨⟨setting, hchecked, -⟩, -⟩
    cases hchecked
  · rintro gpu - ⟨-, k, hk⟩
    cases hk
  · rintro gpu - control setting (rfl | rfl) h <;> cases h

/-- **A restore leaves a limit that is reported** : the maximum of an earlier session, which the next
minimum is sent with. -/
theorem not_limits_inForce : ¬ Along twoGpus.Right twoGpus.next (twoGpus.start fun _ => 0)
    [(fun _ _ => false, writeMax), (fun _ _ => false, .restoreControl)] := by
  rintro ⟨-, hrestore, -⟩
  exact absurd (hrestore.truthful.max 0 (by decide) (by decide +kernel)) (by decide +kernel)

end Geopm.NVMLIOGroup
