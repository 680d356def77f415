import Geopm.App.ProfileNest

/-!
# Hints, progress and epochs of a process

* `Profile.epoch`, `Profile.threadInit`, `Profile.threadPost` : the remaining calls of `ProfileImp`;
* `NestSystem` : a process with the regions that it is in, and the work units that it has announced
  and posted;
* `NestSystem.Shows` : what the status table has to show of these;
* `NestSystem.Regular` : no region is entered in an unmarked one, no thread progress is announced on
  top of posts, and no epoch is marked in a region that is to be ignored;
* `followsNest_iff` : the status table and the record log follow the nest in every step exactly when
  every step is regular.
-/

namespace Geopm

open Prog
open List hiding get modify

/-- `GEOPM_REGION_HINT_IGNORE`. -/
def hintIgnore : ℕ := 8

/-- `geopm_region_id_hint_is_equal`. -/
def regionIdHintIsEqual (hintType regionId : ℕ) : Bool :=
  regionId &&& (hintType * 2 ^ 32 % 2 ^ 64) != 0

namespace AppStatus

def setTotalWorkUnits (cpuIdx : ℕ) (workUnits : ℤ) : EStateM Exception AppStatus Unit := do
  if (← get).numCpu ≤ cpuIdx then
    throw ⟨"ApplicationStatusImp::set_total_work_units(): invalid CPU index: %", [cpuIdx],
      .invalid⟩
  if workUnits ≤ 0 then
    throw ⟨"ApplicationStatusImp::set_total_work_units(): invalid number of work units: %",
      [workUnits], .invalid⟩
  modify fun s => s.update cpuIdx fun cpu => { cpu with totalWork := workUnits.toNat }

def incrementWorkUnit (cpuIdx : ℕ) : EStateM Exception AppStatus Unit := do
  if (← get).numCpu ≤ cpuIdx then
    throw ⟨"ApplicationStatusImp::increment_work_unit(): invalid CPU index: %", [cpuIdx], .invalid⟩
  modify fun s => s.update cpuIdx fun cpu =>
    if cpu.totalWork ≠ 0 then { cpu with completedWork := (cpu.completedWork + 1) % 2 ^ 32 }
    else cpu

/-- `get_progress_cpu`, of an up-to-date cache; `none` is `NAN`. -/
def getProgressCpu (s : AppStatus) (cpuIdx : ℕ) : Except Exception (Option ℚ) :=
  if s.numCpu ≤ cpuIdx then
    .error ⟨"ApplicationStatusImp::get_progress_cpu(): invalid CPU index: %", [cpuIdx], .invalid⟩
  else
    let cpu := s.buffer cpuIdx
    .ok (if cpu.totalWork ≠ 0 then some (cpu.completedWork / cpu.totalWork) else none)

end AppStatus

namespace Profile

/-- `epoch`, at the time `now`. -/
def epoch (now : ℤ) : Method Unit := do
  let p ← get
  if !p.isEnabled || regionIdHintIsEqual p.currRegionId hintIgnore then return
  onLog (RecordLog.epoch now)

/-- `thread_init`; the status table takes the number as an `int`. -/
def threadInit (numWorkUnit : UInt32) : Method Unit := do
  if !(← get).isEnabled || decide (numWorkUnit ≤ 1) then return
  forCpus fun cpu => AppStatus.setTotalWorkUnits cpu numWorkUnit.toBitVec.toInt

def threadPost (cpu : ℕ) : Method Unit := do
  if !(← get).isEnabled then return
  onStatus (AppStatus.incrementWorkUnit cpu)

/-- The controller dumps the record log. -/
def dumpLog : Method Unit := onLog (RecordLog.dump >>= fun _ => pure ())

end Profile

/-- A call of the application, or the controller dumps the log. -/
inductive NestAction where
  | enter (regionId : ℕ) (now : ℤ)
  | exit (regionId : ℕ) (now : ℤ)
  | epoch (now : ℤ)
  | threadInit (numWorkUnit : UInt32)
  | threadPost (cpu : ℕ)
  | dump

/-- The method that is called. -/
def NestAction.run : NestAction → Profile.Method Unit
  | .enter regionId now => Profile.enter regionId now
  | .exit regionId now => Profile.exit regionId now
  | .epoch now => Profile.epoch now
  | .threadInit numWorkUnit => Profile.threadInit numWorkUnit
  | .threadPost cpu => Profile.threadPost cpu
  | .dump => Profile.dumpLog

/-- The profile, and what the application has done with it. -/
structure NestSystem where
  profile : Profile
  /-- The regions that have been entered and not left, innermost first. -/
  regions : List ℕ := []
  /-- The number of the latest `thread_init` since an outermost region was left. -/
  workUnits : Option ℕ := none
  /-- The number of posts on each CPU since the latest `thread_init`. -/
  posts : ℕ → ℕ := fun _ => 0

namespace NestSystem

/-- What the application has done after an action that has returned. -/
def track (s : NestSystem) (p : Profile) : NestAction → NestSystem
  | .enter regionId _ => { s with profile := p, regions := regionId :: s.regions }
  | .exit _ _ =>
    { s with
      profile := p
      regions := s.regions.tail
      workUnits := if s.regions.tail = [] then none else s.workUnits }
  | .threadInit numWorkUnit =>
    { s with profile := p, workUnits := some numWorkUnit.toNat, posts := fun _ => 0 }
  | .threadPost cpu =>
    { s with profile := p, posts := Function.update s.posts cpu (s.posts cpu + 1) }
  | .epoch _ | .dump => { s with profile := p }

/-- One step of the system. -/
def next (s : NestSystem) (a : NestAction) : NestSystem :=
  match a.run s.profile with
  | .ok _ p => s.track p a
  | .error _ p => { s with profile := p }

/-- A process that has connected to the service, on the CPUs of the scheduler. -/
def start (process : ℤ) (scheduler : Scheduler) (numCpu profileHash : ℕ) (zero now : ℤ) :
    NestSystem where
  profile := (ProfileSystem.start process scheduler numCpu profileHash zero now).profile

/-- The call does not fail; regions are left in stack order, more than one work unit is announced,
and work units are posted on the CPUs of the process. -/
def Admissible (s : NestSystem) (a : NestAction) : Prop :=
  returns a.run s.profile = true ∧
    match a with
    | .exit regionId _ => s.regions.head? = some regionId
    | .threadInit numWorkUnit => 1 < numWorkUnit
    | .threadPost cpu => cpu ∈ s.profile.cpuSet
    | _ => True

/-- The hash of the outermost region. -/
def outerHash (s : NestSystem) : ℕ :=
  (s.regions.getLast?.map regionIdHash).getD regionHashUnmarked

/-- The hint of the innermost region. -/
def innerHint (s : NestSystem) : ℕ := (s.regions.head?.map regionIdHint).getD hintUnset

/-- The progress on a CPU; `none` is `NAN`. -/
def progress (s : NestSystem) (cpu : ℕ) : Option ℚ := s.workUnits.map fun n => s.posts cpu / n

/-- The status table shows the nest and the progress on each CPU of the process. -/
def Shows (s : NestSystem) : Prop :=
  ∀ cpu ∈ s.profile.cpuSet,
    (s.profile.appStatus.buffer cpu).hash = s.outerHash ∧
    (s.profile.appStatus.buffer cpu).hint = s.innerHint ∧
    s.profile.appStatus.getProgressCpu cpu = .ok (s.progress cpu)

/-- The action logs an epoch. -/
def LogsEpoch (s : NestSystem) (a : NestAction) : Prop :=
  ∃ r : Record, r.event = .epochCount ∧
    (s.next a).profile.appRecordLog.records = s.profile.appRecordLog.records ++ [r]

/-- The status table shows the nest after the action, and an epoch is logged if it is marked outside
the regions that are to be ignored. -/
def FollowsNest (s : NestSystem) (a : NestAction) : Prop :=
  (s.next a).Shows ∧ match a with
    | .epoch _ => s.LogsEpoch a ↔ ∀ regionId ∈ s.regions, regionIdHint regionId ≠ hintIgnore
    | _ => True

/-- What the code relies on. -/
def Regular (s : NestSystem) : NestAction → Prop
  | .enter regionId _ => s.profile.cpuSet ≠ [] → s.regions ≠ [] →
    s.outerHash = regionHashUnmarked → regionIdHash regionId = regionHashUnmarked
  | .threadInit _ => s.workUnits ≠ none → ∀ cpu ∈ s.profile.cpuSet, s.posts cpu = 0
  | .threadPost cpu => s.workUnits ≠ none → s.posts cpu + 1 < 2 ^ 32
  | .epoch _ => ∀ regionId ∈ s.regions, regionIdHint regionId ≠ hintIgnore
  | .exit _ _ | .dump => True

end NestSystem

/-! ### The methods -/

namespace Profile

variable {p : Profile} {r n : ℕ} {now : ℤ}

section

variable (henabled : p.isEnabled = true)
include henabled

section

variable (hcpus : ∀ cpu ∈ p.cpuSet, cpu < p.appStatus.numCpu)
include hcpus

/-- `enter` shows the region on the CPUs when it is the outermost one for the profile, and its hint
in any case. -/
theorem enter_shows :
    wp (enter r now)
      (fun _ p' => ∃ l, p' = { p with
        currentHash := if p.currentHash = regionHashUnmarked then regionIdHash r else p.currentHash
        appRecordLog := l
        appStatus := p.appStatus.updateAll p.cpuSet fun status =>
          { status with
            hash := if p.currentHash = regionHashUnmarked then regionIdHash r else status.hash
            hint := regionIdHint r }
        hintStack := regionIdHint r :: p.hintStack })
      (fun _ _ => True) p := by
  unfold enter
  simp only [wp_bind, wp_get, henabled, Bool.not_true, Bool.false_eq_true, if_false]
  refine wp_checkHint (regionIdHint_lt r) ?_
  simp only [wp_bind, wp_get, wp_ite, wp_modify]
  refine ⟨fun hunmarked => ?_, fun hmarked => ?_⟩
  · unfold onLog
    rw [wp_zoom]
    refine wp_mono (wp_const.mpr trivial) (fun _ l _ => ?_) fun _ _ _ => trivial
    rw [wp_bind]
    refine wp_setHash (validHash_regionIdHash r).2 (regionIdHint_lt r) hcpus ?_
    rw [wp_modify]
    exact ⟨l, by simp only [if_pos hunmarked, henabled]⟩
  · refine wp_setHint henabled (regionIdHint_lt r) hcpus ?_
    exact ⟨p.appRecordLog, by simp only [if_neg hmarked, henabled]⟩

/-- `exit` of the last region clears the status, and that of another one restores the hint. -/
theorem exit_shows {regions : List ℕ}
    (hhints : p.hintStack = regionIdHint r :: regions.map regionIdHint) :
    wp (exit r now)
      (fun _ p' => match regions with
        | [] => ∃ l, p' = { p with
            currentHash := regionHashUnmarked
            appRecordLog := l
            appStatus := p.appStatus.updateAll p.cpuSet fun _ =>
              { hint := hintUnset, hash := regionHashUnmarked, totalWork := 0, completedWork := 0 }
            hintStack := [] }
        | r' :: _ => p' = { p with
            appStatus := p.appStatus.updateAll p.cpuSet fun status =>
              { status with hint := regionIdHint r' }
            hintStack := regions.map regionIdHint })
      (fun _ _ => True) p := by
  unfold exit
  simp only [wp_bind, wp_get, henabled, Bool.not_true, Bool.false_eq_true, if_false, hhints,
    wp_modify]
  cases regions with
  | nil =>
    change wp (onLog _ >>= _) _ _ _
    rw [wp_bind]
    unfold onLog
    rw [wp_zoom]
    refine wp_mono (wp_const.mpr trivial) (fun _ l _ => ?_) fun _ _ _ => trivial
    rw [wp_bind, wp_modify]
    refine wp_clear hcpus ?_
    exact ⟨l, rfl⟩
  | cons r' regions =>
    change wp (setHint _) _ _ _
    refine wp_setHint rfl (regionIdHint_lt r') hcpus ?_
    rfl

/-- `thread_init` announces the work units on the CPUs of the process. -/
theorem threadInit_shows {n : UInt32} (hn : 1 < n) :
    wp (threadInit n)
      (fun _ p' => p' = { p with
        appStatus := p.appStatus.updateAll p.cpuSet fun status =>
          { status with totalWork := n.toNat } })
      (fun _ _ => True) p := by
  have hunits : ∀ w : BitVec 32, 0 < w.toInt → w.toInt.toNat = w.toNat := by
    intro w hw
    rw [BitVec.toInt_eq_toNat_cond] at hw ⊢
    split_ifs at hw ⊢ with h
    · omega
    · omega
  have hone : ¬ n ≤ 1 := UInt32.not_le.mpr hn
  unfold threadInit
  rw [wp_bind, wp_get, if_neg (by simp [henabled, hone])]
  by_cases hw : 0 < n.toBitVec.toInt
  · refine wp_forCpus (fun status => { status with totalWork := n.toNat }) (fun _ => by rfl)
      (fun cpu s hcpu => ?_) hcpus ?_
    · unfold AppStatus.setTotalWorkUnits
      simp only [wp_bind, wp_get, wp_ite, wp_throw, wp_modify]
      refine ⟨by omega, fun _ => ⟨by omega, fun _ => ?_⟩⟩
      rw [hunits _ hw]
      rfl
    · rfl
  · unfold forCpus
    rw [wp_bind, wp_get]
    cases hset : p.cpuSet with
    | nil =>
      have hsame : ∀ g, p.appStatus.updateAll [] g = p.appStatus := fun g => by
        simp only [AppStatus.updateAll, not_mem_nil, if_false]
      change p = _
      rw [hsame, ← hset]
    | cons cpu cpus =>
      change wp (onStatus _ >>= fun _ => List.forM cpus _) _ _ _
      unfold onStatus AppStatus.setTotalWorkUnits
      rw [wp_bind, wp_zoom]
      simp only [wp_bind, wp_get, wp_ite, wp_throw, wp_modify]
      exact ⟨fun _ => trivial, fun _ => ⟨fun _ => trivial, fun hpos => absurd hpos (by omega)⟩⟩

end

/-- `epoch` is not kept from logging: the current region ID is never set. -/
theorem epoch_logs (hid : p.currRegionId = 0) :
    wp (epoch now)
      (fun _ p' => ∃ l, p' = { p with appRecordLog := l } ∧
        ∃ r : Record, r.event = .epochCount ∧ l.records = p.appRecordLog.records ++ [r])
      (fun _ _ => True) p := by
  have hignore : regionIdHintIsEqual 0 hintIgnore = false := by decide
  unfold epoch
  rw [wp_bind, wp_get, if_neg (by simp [henabled, hid, hignore])]
  unfold onLog RecordLog.epoch
  rw [wp_zoom]
  simp only [wp_bind, wp_modify, wp_get, RecordLog.wp_appendRecord]
  refine ⟨fun _ => ⟨_, rfl, ⟨now, p.appRecordLog.reset.process, .epochCount,
    p.appRecordLog.reset.epochCount + 1⟩, rfl, ?_⟩, fun _ => trivial⟩
  rw [RecordLog.reset_records]

end

theorem dumpLog_shows :
    wp dumpLog (fun _ p' => ∃ l, p' = { p with appRecordLog := l }) (fun _ _ => True) p := by
  unfold dumpLog onLog
  rw [wp_zoom]
  exact wp_mono (wp_const.mpr trivial) (fun _ l _ => ⟨l, rfl⟩) fun _ _ _ => trivial

/-- `thread_post` counts on a CPU with work units. -/
theorem threadPost_shows (henabled : p.isEnabled = true) {cpu : ℕ} :
    wp (threadPost cpu)
      (fun _ p' => p' = { p with appStatus := p.appStatus.update cpu fun status =>
        if status.totalWork ≠ 0 then
          { status with completedWork := (status.completedWork + 1) % 2 ^ 32 }
        else status })
      (fun _ _ => True) p := by
  unfold threadPost
  simp only [wp_bind, wp_get, henabled, Bool.not_true, Bool.false_eq_true, if_false]
  unfold onStatus AppStatus.incrementWorkUnit
  rw [wp_zoom]
  simp only [wp_bind, wp_get, wp_ite, wp_throw, wp_modify]
  exact ⟨fun _ => trivial, fun _ => by simp only [henabled]⟩

end Profile

/-! ### Steps -/

namespace NestSystem

variable {s : NestSystem} {a : NestAction} {p : Profile}

/-- What the status table holds of a CPU. -/
def status (s : NestSystem) (cpu : ℕ) : CpuStatus where
  hint := s.innerHint
  hash := s.outerHash
  totalWork := s.workUnits.getD 0
  completedWork := if s.workUnits = none then 0 else s.posts cpu

theorem status_of_none (h : s.workUnits = none) (cpu : ℕ) :
    s.status cpu = ⟨s.innerHint, s.outerHash, 0, 0⟩ := by
  rw [status, h]
  rfl

theorem status_of_some {n : ℕ} (h : s.workUnits = some n) (cpu : ℕ) :
    s.status cpu = ⟨s.innerHint, s.outerHash, n, s.posts cpu⟩ := by
  rw [status, h]
  rfl

/-- The profile follows the nest. -/
structure Tracks (s : NestSystem) : Prop where
  enabled : s.profile.isEnabled = true
  regionId : s.profile.currRegionId = 0
  hints : s.profile.hintStack = s.regions.map regionIdHint
  current : s.profile.cpuSet ≠ [] → s.profile.currentHash = s.outerHash
  cpus : ∀ cpu ∈ s.profile.cpuSet, cpu < s.profile.appStatus.numCpu
  table : ∀ cpu ∈ s.profile.cpuSet, s.profile.appStatus.buffer cpu = s.status cpu
  units : ∀ n, s.workUnits = some n → 0 < n

variable {t : AppStatus}

/-- The progress that the table shows. -/
theorem getProgressCpu_eq {cpu : ℕ} (hcpu : cpu < t.numCpu) :
    t.getProgressCpu cpu = .ok (if (t.buffer cpu).totalWork ≠ 0 then
      some ((t.buffer cpu).completedWork / (t.buffer cpu).totalWork) else none) :=
  if_neg (Nat.not_le.mpr hcpu)

theorem Tracks.shows (hs : s.Tracks) : s.Shows := by
  intro cpu hcpu
  rw [getProgressCpu_eq (hs.cpus cpu hcpu), hs.table cpu hcpu]
  refine ⟨rfl, rfl, ?_⟩
  rw [status, progress]
  cases hunits : s.workUnits with
  | none => rfl
  | some n =>
    have hn : n ≠ 0 := Nat.ne_of_gt (hs.units n hunits)
    simp [hn]

theorem next_of_returns {Q : Unit → Profile → Prop} (hreturns : returns a.run s.profile = true)
    (h : wp a.run Q (fun _ _ => True) s.profile) : ∃ p, Q () p ∧ s.next a = s.track p a := by
  have hok := eq_ok_of_returns hreturns
  unfold wp at h
  rw [hok] at h
  refine ⟨_, h, ?_⟩
  unfold next
  rw [hok]

variable {g : CpuStatus → CpuStatus}

theorem buffer_updateAll {cpus : List ℕ} {cpu : ℕ}
    (hcpu : cpu ∈ cpus) : (t.updateAll cpus g).buffer cpu = g (t.buffer cpu) := if_pos hcpu

theorem buffer_update_self {cpu : ℕ} :
    (t.update cpu g).buffer cpu = g (t.buffer cpu) := Function.update_self ..

theorem buffer_update_of_ne {cpu cpu' : ℕ}
    (hne : cpu' ≠ cpu) : (t.update cpu g).buffer cpu' = t.buffer cpu' :=
  Function.update_of_ne hne ..

@[simp] theorem track_profile : (s.track p a).profile = p := by cases a <;> rfl

theorem outerHash_enter (r : ℕ) (now : ℤ) : (s.track p (.enter r now)).outerHash =
    if s.regions = [] then regionIdHash r else s.outerHash := by
  change ((r :: s.regions).getLast?.map regionIdHash).getD regionHashUnmarked = _
  split_ifs with hnil
  · rw [hnil]
    rfl
  · obtain ⟨r', regions, hcons⟩ := exists_cons_of_ne_nil hnil
    rw [outerHash, hcons, getLast?_cons_cons]

theorem outerHash_of_nil (hnil : s.regions = []) : s.outerHash = regionHashUnmarked := by
  rw [outerHash, hnil]
  rfl

theorem Tracks.enter (hs : s.Tracks) {r : ℕ} {now : ℤ} (hadm : s.Admissible (.enter r now)) :
    (s.Regular (.enter r now) → (s.next (.enter r now)).Tracks) ∧
      (¬ s.Regular (.enter r now) → ¬ (s.next (.enter r now)).Shows) := by
  obtain ⟨p, ⟨l, rfl⟩, hnext⟩ := next_of_returns hadm.1
    (Profile.enter_shows hs.enabled hs.cpus)
  rw [hnext]
  constructor
  · intro hreg
    have houter : s.profile.cpuSet ≠ [] → (if s.profile.currentHash = regionHashUnmarked then
        regionIdHash r else s.profile.currentHash) =
        if s.regions = [] then regionIdHash r else s.outerHash := by
      intro hset
      rw [hs.current hset]
      by_cases hnil : s.regions = []
      · rw [if_pos hnil, if_pos (outerHash_of_nil hnil)]
      · rw [if_neg hnil]
        split_ifs with hunmarked
        · rw [hreg hset hnil hunmarked, hunmarked]
        · rfl
    refine ⟨hs.enabled, hs.regionId, ?_, fun hset => ?_, hs.cpus, fun cpu hcpu => ?_, hs.units⟩
    · rw [track_profile, hs.hints]
      rfl
    · rw [track_profile] at hset ⊢
      rw [outerHash_enter]
      exact houter hset
    · rw [track_profile] at hcpu ⊢
      dsimp only at hcpu ⊢
      have hhash := houter (ne_nil_of_mem hcpu)
      have hcurrent := hs.current (ne_nil_of_mem hcpu)
      rw [buffer_updateAll hcpu, hs.table cpu hcpu, status, status, outerHash_enter, ← hhash,
        hcurrent]
      rfl
  · intro hreg hshows
    unfold Regular at hreg
    push Not at hreg
    obtain ⟨hset, hne, hunmarked, hhash⟩ := hreg
    obtain ⟨cpu, cpus, hcons⟩ := exists_cons_of_ne_nil hset
    have hcpu : cpu ∈ s.profile.cpuSet := hcons ▸ mem_cons_self
    unfold Shows at hshows
    rw [track_profile, outerHash_enter, if_neg hne, hunmarked] at hshows
    obtain ⟨hshown, -⟩ := hshows cpu hcpu
    dsimp only at hshown
    rw [buffer_updateAll hcpu] at hshown
    exact hhash ((if_pos ((hs.current hset).trans hunmarked)).symm.trans hshown)

theorem Tracks.exit (hs : s.Tracks) {r : ℕ} {now : ℤ} (hadm : s.Admissible (.exit r now)) :
    (s.next (.exit r now)).Tracks := by
  obtain ⟨hreturns, hhead⟩ := hadm
  obtain ⟨rest, hrest⟩ := head?_eq_some_iff.mp hhead
  have hhints : s.profile.hintStack = regionIdHint r :: rest.map regionIdHint := by
    rw [hs.hints, hrest, map_cons]
  obtain ⟨p, hp, hnext⟩ := next_of_returns hreturns
    (Profile.exit_shows hs.enabled hs.cpus hhints)
  have hregions : ∀ q, (s.track q (.exit r now)).regions = rest := fun q => by
    change s.regions.tail = rest
    rw [hrest, tail_cons]
  have hunits : ∀ q, (s.track q (.exit r now)).workUnits =
      if rest = [] then none else s.workUnits := fun q => by
    change (if s.regions.tail = [] then _ else _) = _
    rw [hrest, tail_cons]
  rw [hnext]
  cases rest with
  | nil =>
    obtain ⟨l, rfl⟩ := hp
    refine ⟨hs.enabled, hs.regionId, ?_, fun _ => ?_, hs.cpus, fun cpu hcpu => ?_, ?_⟩
    · rw [track_profile, hregions]
      rfl
    · rw [track_profile, outerHash_of_nil (hregions _)]
    · rw [track_profile] at hcpu ⊢
      dsimp only at hcpu ⊢
      rw [buffer_updateAll hcpu, status, innerHint, outerHash_of_nil (hregions _), hregions, hunits]
      rfl
    · intro n hn
      rw [hunits, if_pos rfl] at hn
      cases hn
  | cons r' rest =>
    obtain rfl := hp
    have houter : ∀ q, (s.track q (.exit r now)).outerHash = s.outerHash := fun q => by
      rw [outerHash, hregions, outerHash, hrest, getLast?_cons_cons]
    have hinner : ∀ q, (s.track q (.exit r now)).innerHint = regionIdHint r' := fun q => by
      rw [innerHint, hregions]
      rfl
    refine ⟨hs.enabled, hs.regionId, ?_, fun hset => ?_, hs.cpus, fun cpu hcpu => ?_, ?_⟩
    · rw [track_profile, hregions]
    · rw [track_profile] at hset ⊢
      rw [houter]
      exact hs.current hset
    · rw [track_profile] at hcpu ⊢
      dsimp only at hcpu ⊢
      rw [buffer_updateAll hcpu, hs.table cpu hcpu, status, status, houter, hinner, hunits,
        if_neg (cons_ne_nil r' rest)]
      rfl
    · rw [hunits, if_neg (cons_ne_nil r' rest)]
      exact hs.units

theorem Tracks.epoch (hs : s.Tracks) {now : ℤ} (hadm : s.Admissible (.epoch now)) :
    (s.next (.epoch now)).Tracks ∧ s.LogsEpoch (.epoch now) := by
  obtain ⟨p, ⟨l, rfl, hlogs⟩, hnext⟩ := next_of_returns hadm.1
    (Profile.epoch_logs hs.enabled hs.regionId)
  refine ⟨?_, ?_⟩
  · rw [hnext]
    exact ⟨hs.enabled, hs.regionId, hs.hints, hs.current, hs.cpus, hs.table, hs.units⟩
  · unfold LogsEpoch
    rw [hnext]
    exact hlogs

theorem Tracks.dump (hs : s.Tracks) (hadm : s.Admissible .dump) : (s.next .dump).Tracks := by
  obtain ⟨p, ⟨l, rfl⟩, hnext⟩ := next_of_returns hadm.1 Profile.dumpLog_shows
  rw [hnext]
  exact ⟨hs.enabled, hs.regionId, hs.hints, hs.current, hs.cpus, hs.table, hs.units⟩

theorem div_eq_div {a b n : ℕ} (hn : 0 < n) (h : (a : ℚ) / n = b / n) : a = b := by
  have hn' : (n : ℚ) ≠ 0 := Nat.cast_ne_zero.mpr (Nat.ne_of_gt hn)
  exact Nat.cast_injective ((div_left_inj' hn').mp h)

theorem Shows.posts (h : s.Shows) {cpu n : ℕ} (hcpu : cpu ∈ s.profile.cpuSet)
    (hlt : cpu < s.profile.appStatus.numCpu) (hunits : s.workUnits = some n) (hn : 0 < n)
    (htotal : (s.profile.appStatus.buffer cpu).totalWork = n) :
    (s.profile.appStatus.buffer cpu).completedWork = s.posts cpu := by
  obtain ⟨-, -, hprogress⟩ := h cpu hcpu
  rw [getProgressCpu_eq hlt, htotal, if_pos (Nat.ne_of_gt hn), progress, hunits] at hprogress
  exact div_eq_div hn (Option.some.inj (Except.ok.inj hprogress))

theorem Tracks.threadInit (hs : s.Tracks) {n : UInt32} (hadm : s.Admissible (.threadInit n)) :
    (s.Regular (.threadInit n) → (s.next (.threadInit n)).Tracks) ∧
      (¬ s.Regular (.threadInit n) → ¬ (s.next (.threadInit n)).Shows) := by
  obtain ⟨hreturns, hn⟩ := hadm
  have hpos : 0 < n.toNat := Nat.lt_trans Nat.one_pos (UInt32.lt_iff_toNat_lt.mp hn)
  obtain ⟨p, rfl, hnext⟩ := next_of_returns hreturns
    (Profile.threadInit_shows hs.enabled hs.cpus hn)
  rw [hnext]
  constructor
  · intro hreg
    refine ⟨hs.enabled, hs.regionId, hs.hints, hs.current, hs.cpus, fun cpu hcpu => ?_, ?_⟩
    · rw [track_profile] at hcpu ⊢
      dsimp only at hcpu ⊢
      rw [buffer_updateAll hcpu, hs.table cpu hcpu, status, status]
      have hposts : (if s.workUnits = none then 0 else s.posts cpu) = 0 := by
        split_ifs with hnone
        · rfl
        · exact hreg hnone cpu hcpu
      rw [hposts]
      rfl
    · rintro m ⟨⟩
      exact hpos
  · intro hreg hshows
    unfold Regular at hreg
    push Not at hreg
    obtain ⟨hsome, cpu, hcpu, hposts⟩ := hreg
    have hbuffer : (s.profile.appStatus.updateAll s.profile.cpuSet fun status =>
        { status with totalWork := n.toNat }).buffer cpu =
        { s.status cpu with totalWork := n.toNat } := by
      rw [buffer_updateAll hcpu, hs.table cpu hcpu]
    have hcompleted := hshows.posts hcpu (hs.cpus cpu hcpu) rfl hpos
      (congrArg CpuStatus.totalWork hbuffer)
    refine hposts (Eq.trans ?_ ((congrArg CpuStatus.completedWork hbuffer).symm.trans hcompleted))
    exact (if_neg hsome).symm

/-- A work unit is posted. -/
theorem Tracks.threadPost (hs : s.Tracks) {cpu : ℕ} (hadm : s.Admissible (.threadPost cpu)) :
    (s.Regular (.threadPost cpu) → (s.next (.threadPost cpu)).Tracks) ∧
      (¬ s.Regular (.threadPost cpu) → ¬ (s.next (.threadPost cpu)).Shows) := by
  obtain ⟨hreturns, hmem⟩ := hadm
  obtain ⟨p, rfl, hnext⟩ := next_of_returns hreturns
    (Profile.threadPost_shows hs.enabled)
  rw [hnext]
  constructor
  · intro hreg
    refine ⟨hs.enabled, hs.regionId, hs.hints, hs.current, hs.cpus, fun cpu' hcpu => ?_, hs.units⟩
    rw [track_profile] at hcpu ⊢
    dsimp only at hcpu ⊢
    have hunits : ∀ q, (s.track q (.threadPost cpu)).workUnits = s.workUnits := fun _ => rfl
    have hposts : ∀ q, (s.track q (.threadPost cpu)).posts =
      Function.update s.posts cpu (s.posts cpu + 1) := fun _ => rfl
    cases hwork : s.workUnits with
    | none =>
      rw [status_of_none (by rw [hunits, hwork])]
      by_cases heq : cpu' = cpu
      · subst heq
        rw [buffer_update_self, hs.table cpu' hcpu, status_of_none hwork]
        rfl
      · rw [buffer_update_of_ne heq, hs.table cpu' hcpu, status_of_none hwork]
        rfl
    | some n =>
      have hn : n ≠ 0 := Nat.ne_of_gt (hs.units n hwork)
      rw [status_of_some ((hunits _).trans hwork), hposts]
      by_cases heq : cpu' = cpu
      · subst heq
        have hsmall := hreg (by rw [hwork]; exact nofun)
        rw [buffer_update_self, hs.table cpu' hcpu, status_of_some hwork, if_pos hn,
          Nat.mod_eq_of_lt hsmall, Function.update_self]
        rfl
      · rw [buffer_update_of_ne heq, hs.table cpu' hcpu, status_of_some hwork,
          Function.update_of_ne heq]
        rfl
  · intro hreg hshows
    unfold Regular at hreg
    push Not at hreg
    obtain ⟨hsome, hlarge⟩ := hreg
    obtain ⟨n, hwork⟩ := Option.ne_none_iff_exists'.mp hsome
    have hn : n ≠ 0 := Nat.ne_of_gt (hs.units n hwork)
    have hbuffer : (s.profile.appStatus.update cpu fun status => if status.totalWork ≠ 0 then
        { status with completedWork := (status.completedWork + 1) % 2 ^ 32 }
        else status).buffer cpu =
        ⟨s.innerHint, s.outerHash, n, (s.posts cpu + 1) % 2 ^ 32⟩ := by
      rw [buffer_update_self, hs.table cpu hmem, status_of_some hwork, if_pos hn]
    have hcompleted := hshows.posts hmem (hs.cpus cpu hmem) hwork (hs.units n hwork)
      (congrArg CpuStatus.totalWork hbuffer)
    -- the counter has wrapped
    have hwrapped := (congrArg CpuStatus.completedWork hbuffer).symm.trans hcompleted
    have hcount : (s.track s.profile (.threadPost cpu)).posts cpu = s.posts cpu + 1 :=
      Function.update_self ..
    have hmod : (s.posts cpu + 1) % 2 ^ 32 < 2 ^ 32 := Nat.mod_lt _ (by decide)
    change (s.posts cpu + 1) % 2 ^ 32 = (s.track s.profile (.threadPost cpu)).posts cpu at hwrapped
    omega

theorem followsNest_step (hs : s.Tracks) (hadm : s.Admissible a) :
    (s.FollowsNest a ↔ s.Regular a) ∧ (s.Regular a → (s.next a).Tracks) := by
  have hboth : (s.Regular a → (s.next a).Tracks) → (¬ s.Regular a → ¬ (s.next a).Shows) →
      ((s.next a).Shows ↔ s.Regular a) := fun hreg hirreg =>
    ⟨fun hshows => not_not.mp fun h => hirreg h hshows, fun h => (hreg h).shows⟩
  unfold FollowsNest
  cases a with
  | enter r now =>
    have h := hs.enter hadm
    exact ⟨(and_iff_left trivial).trans (hboth h.1 h.2), h.1⟩
  | exit r now =>
    have h := hs.exit hadm
    exact ⟨iff_of_true ⟨h.shows, trivial⟩ trivial, fun _ => h⟩
  | epoch now =>
    obtain ⟨h, hlogs⟩ := hs.epoch hadm
    exact ⟨⟨fun hf => hf.2.mp hlogs, fun hreg => ⟨h.shows, iff_of_true hlogs hreg⟩⟩, fun _ => h⟩
  | threadInit n =>
    have h := hs.threadInit hadm
    exact ⟨(and_iff_left trivial).trans (hboth h.1 h.2), h.1⟩
  | threadPost cpu =>
    have h := hs.threadPost hadm
    exact ⟨(and_iff_left trivial).trans (hboth h.1 h.2), h.1⟩
  | dump =>
    have h := hs.dump hadm
    exact ⟨iff_of_true ⟨h.shows, trivial⟩ trivial, fun _ => h⟩

theorem connect_tracks {process zero now : ℤ} {scheduler : Scheduler} {numCpu profileHash : ℕ} :
    wp (Profile.connect (.ok ()) scheduler profileHash zero now)
      (fun _ p => p.isEnabled = true → Tracks { profile := p })
      (fun _ p => p.isEnabled = true → Tracks { profile := p })
      { numCpu := numCpu
        appStatus := { numCpu := numCpu }
        appRecordLog := { process := process } } := by
  have hcpus : ∀ cpu ∈ (List.range numCpu).filter scheduler.procCpuset, cpu < numCpu :=
    fun cpu hcpu => mem_range.mp (mem_filter.mp hcpu).1
  unfold Profile.connect
  simp only [wp_tryCatch, wp_bind]
  unfold Profile.onLog
  rw [wp_zoom]
  refine wp_mono (wp_const.mpr trivial) (fun _ l _ => ?_) fun _ l _ => by rintro ⟨⟩
  rw [wp_bind]
  unfold Profile.resetCpuSet
  simp only [wp_bind, wp_modify, wp_get]
  refine Profile.wp_setHash (by decide) (by decide) hcpus ?_
  unfold Profile.onLog
  rw [wp_zoom]
  refine wp_mono (wp_const.mpr trivial) (fun _ l _ _ => ?_) fun _ l _ => by rintro ⟨⟩
  refine ⟨rfl, rfl, rfl, fun _ => rfl, hcpus, fun cpu hcpu => ?_, by simp⟩
  exact if_pos hcpu

theorem start_tracks {process zero now : ℤ} {scheduler : Scheduler} {numCpu profileHash : ℕ}
    (h : (start process scheduler numCpu profileHash zero now).profile.isEnabled = true) :
    (start process scheduler numCpu profileHash zero now).Tracks :=
  (wp_final (P := fun p => p.isEnabled = true → Tracks { profile := p })).mp connect_tracks h

/-- A region with a compute hint and one in it that is to be ignored, with work units and epochs. -/
def regularCalls : List NestAction :=
  [.epoch 3, .enter (2 ^ 33 + 5) 4, .threadInit 3, .threadPost 0, .threadPost 1, .threadPost 0,
    .enter (2 ^ 35 + 6) 5, .dump, .exit (2 ^ 35 + 6) 6, .epoch 7, .exit (2 ^ 33 + 5) 8,
    .threadInit 2]

end NestSystem

end Geopm
