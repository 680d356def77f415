import Geopm.App.Profile
import Geopm.App.ValidDumps

/-!
# Failed calls of the profile

* `ProfileSystem.Consistent` : the hint stack, the current region, the record log and the status
  table agree, and the records are valid;
* `ProfileSystem.Proper` : the application leaves its regions in stack order, and the clock does
  not go back;
* `ProfileSystem.Room` : the outermost region is not `GEOPM_REGION_HASH_UNMARKED`, and the record
  log has room for the record of entering or leaving it;
* `consistent_of_reachable` : runs whose steps have room stay consistent;
* `full_log_inconsistent` : an `enter` that finds the buffer full leaves a profile that is not.
-/

namespace Geopm

open Prog RecordLog
open List

/-! ### The log of a run -/

/-- The log after a run that has led into the region `o`, whose last call was at `clock`. -/
def LogAt (l : RecordLog) (dumped : List Record) (o : Option ℕ) (clock : ℤ) : Prop :=
  ∃ L : LogSystem, L.log = l ∧ L.dumpedRecords = dumped ∧ L.MapTracked ∧ L.Valid ∧
    (openOf L.calls).map Prod.fst = o ∧ ∀ c ∈ L.calls, c.time ≤ clock

/-- The region the application is in after a call. -/
def openHash (o : Option ℕ) : LogCall → Option ℕ
  | .enter h _ => some h
  | .exit _ _ => none
  | _ => o

/-- Regions are entered one at a time, and left before the next one is entered. -/
def HashInTurn (o : Option ℕ) : LogCall → Prop
  | .enter _ _ => o = none
  | .exit h _ => o = some h
  | _ => True

variable {l : RecordLog} {dumped : List Record}

namespace LogAt

variable {o : Option ℕ} {clock clock' : ℤ} {c : LogCall}

section

variable (hl : LogAt l dumped o clock)
include hl

theorem mono (hle : clock ≤ clock') : LogAt l dumped o clock' := by
  obtain ⟨L, hlog, hdumped, hmap, hvalid, hopen, htime⟩ := hl
  exact ⟨L, hlog, hdumped, hmap, hvalid, hopen, fun c hc => Int.le_trans (htime c hc) hle⟩

/-- A call that returns, or is refused. -/
theorem call (hturn : HashInTurn o c) (hvalid : c.ValidRegion)
    (htime : clock ≤ c.time) :
    wp c.run (fun _ l' => LogAt l' dumped (openHash o c) c.time)
      (fun _ l' => ¬ l.reset.records.length < maxRecord ∧ Refused l.reset c l') l := by
  obtain ⟨L, rfl, rfl, hmap, hL, rfl, hle⟩ := hl
  have hspec := run_spec L.log hmap.indexed c
  have hturn' : L.InTurn (.call c) := by
    cases c with
    | enter h t => exact Option.map_eq_none_iff.mp hturn
    | exit h t =>
      obtain ⟨⟨h', t'⟩, ho, rfl⟩ := Option.map_eq_some_iff.mp hturn
      exact ⟨t', ho⟩
    | _ => trivial
  have horder : L.InOrder (.call c) := ⟨hvalid, fun c' hc' => Int.le_trans (hle c' hc') htime⟩
  unfold Outcome wp at hspec
  unfold wp
  cases hrun : c.run L.log with
  | error e l' => rw [hrun] at hspec; exact hspec
  | ok a l' =>
    have hfits : L.Fits (.call c) := wp_of_ok hrun trivial
    have hnext : L.next (.call c) = { L with log := l', calls := L.calls ++ [c] } := by
      change L.afterCall c = _
      unfold LogSystem.afterCall
      rw [hrun]
    have hmap' := LogSystem.mapTracked_next hmap hfits hturn'
    have hvalid' := LogSystem.valid_next hmap hL hfits hturn' horder
    rw [hnext] at hmap' hvalid'
    refine ⟨{ L with log := l', calls := L.calls ++ [c] }, rfl, rfl, hmap', hvalid', ?_, ?_⟩
    · change (openOf (L.calls ++ [c])).map Prod.fst = _
      rw [LogSystem.openOf_concat]
      cases c <;> rfl
    · intro c' hc'
      rcases mem_append.mp hc' with hc' | hc'
      · exact Int.le_trans (hle c' hc') htime
      · exact Int.le_of_eq (congrArg _ (mem_singleton.mp hc'))

theorem refused_note {record : Record}
    (hnote : l.reset.noteOf c = some (record, l.reset.epochCount)) {l' : RecordLog}
    (hrefused : Refused l.reset c l') : LogAt l' dumped o clock := by
  obtain ⟨L, rfl, rfl, hmap, hL, rfl, hle⟩ := hl
  have hreset : L.log.reset.reset = L.log.reset := hmap.reset
  have hl' : l' = L.log.reset := by
    cases hrefused with
    | enter => cases hnote
    | exitPlain => cases hnote
    | exitKept => cases hnote
    | note hnote' =>
      rw [hnote] at hnote'
      cases hnote'
      rfl
  refine ⟨{ L with log := l' }, rfl, rfl, ?_, ⟨?_, ?_, hL.dumps⟩, rfl, hle⟩
  · unfold LogSystem.MapTracked
    rw [hl', hreset]
    exact hmap
  · rw [hl', hreset]
    exact hL.accepted
  · rw [hl', reset_records, reset_regions]
    exact hL.signals

theorem emptied :
    LogAt l.emptied (dumped ++ l.records) o clock := by
  obtain ⟨L, rfl, rfl, hmap, hL, rfl, hle⟩ := hl
  have hmap' := LogSystem.mapTracked_next (a := .dump) hmap trivial trivial
  have hvalid' := LogSystem.valid_next (a := .dump) hmap hL trivial trivial trivial
  exact ⟨L.afterDump, rfl, LogSystem.dumpedRecords_afterDump L, hmap', hvalid', rfl, hle⟩

theorem spec :
    ({} : ValidateRecord).Accepts (dumped ++ l.records) ∧
      l.enteredHash = o.getD regionHashInvalid := by
  obtain ⟨L, rfl, rfl, hmap, hL, rfl, -⟩ := hl
  refine ⟨?_, ?_⟩
  · obtain ⟨v, hrun, -⟩ := hL.accepted
    rw [reset_records] at hrun
    exact ValidateRecord.accepts_iff.mpr ⟨v, hrun⟩
  · rw [← L.log.reset_enteredHash]
    exact hmap.entered

end

theorem init (process clock : ℤ) : LogAt { process := process } [] none clock :=
  ⟨LogSystem.init process, rfl, rfl, LogSystem.mapTracked_init process,
    LogSystem.valid_init process, rfl, nofun⟩

end LogAt

/-! ### The status table -/

/-- Change the status of some CPUs. -/
def AppStatus.updateAll (s : AppStatus) (cpus : List ℕ) (g : CpuStatus → CpuStatus) : AppStatus :=
  { s with buffer := fun cpu => if cpu ∈ cpus then g (s.buffer cpu) else s.buffer cpu }

theorem AppStatus.updateAll_update (s : AppStatus) (cpus : List ℕ) (cpu : ℕ)
    {g : CpuStatus → CpuStatus} (hg : ∀ x, g (g x) = g x) :
    (s.updateAll cpus g).update cpu g = s.updateAll (cpus ++ [cpu]) g := by
  have hbuffer : ((s.updateAll cpus g).update cpu g).buffer =
      (s.updateAll (cpus ++ [cpu]) g).buffer := by
    funext k
    simp only [updateAll, update, Function.update_apply, mem_append, mem_singleton]
    by_cases hk : k = cpu
    · subst hk
      by_cases hmem : k ∈ cpus <;> simp [hmem, hg]
    · simp [hk]
  exact congrArg (fun b => ({ s with buffer := b } : AppStatus)) hbuffer

variable {p : Profile}

namespace Profile

variable {Q : Unit → Profile → Prop} {E : Exception → Profile → Prop}

/-- A loop over the CPUs that changes the status of each. -/
theorem wp_forCpus {f : ℕ → EStateM Exception AppStatus Unit} (g : CpuStatus → CpuStatus)
    (hg : ∀ x, g (g x) = g x)
    (hf : ∀ cpu (s : AppStatus), cpu < s.numCpu →
      wp (f cpu) (fun _ s' => s' = s.update cpu g) (fun _ _ => False) s)
    (hp : ∀ cpu ∈ p.cpuSet, cpu < p.appStatus.numCpu)
    (hQ : Q ⟨⟩ { p with appStatus := p.appStatus.updateAll p.cpuSet g }) :
    wp (forCpus f) Q E p := by
  unfold forCpus
  rw [wp_bind, wp_get]
  refine wp_mono (wp_forM_done (E := fun _ _ => False) (I := fun done q =>
    q = { p with appStatus := p.appStatus.updateAll done g }) ?_ ?_) ?_ fun _ _ h => h.elim
  · simp only [AppStatus.updateAll, not_mem_nil, if_false]
  · rintro pre cpu post hcpus _ rfl
    have hcpu : cpu < p.appStatus.numCpu := hp cpu (by rw [hcpus]; simp)
    unfold onStatus
    rw [wp_zoom]
    refine wp_mono (hf cpu _ hcpu) ?_ fun _ _ h => h
    rintro - _ rfl
    rw [AppStatus.updateAll_update _ _ _ hg]
  · rintro - _ rfl
    exact hQ

theorem wp_setHash {hash hint : ℕ} (hhash : hash ≤ uint32Max) (hhint : hint < numRegionHint)
    (hp : ∀ cpu ∈ p.cpuSet, cpu < p.appStatus.numCpu)
    (hQ : Q ⟨⟩ { p with appStatus := p.appStatus.updateAll p.cpuSet fun status =>
      { status with hash := hash, hint := hint } }) :
    wp (forCpus fun cpu => AppStatus.setHash cpu hash hint) Q E p := by
  refine wp_forCpus _ (fun _ => by rfl) (fun cpu s hcpu => ?_) hp hQ
  unfold AppStatus.setHash
  simp only [wp_bind, wp_get, wp_ite, wp_throw]
  exact ⟨by omega, fun _ => ⟨by omega, fun _ => wp_checkHint hhint (by rfl)⟩⟩

theorem wp_setHint {hint : ℕ} (henabled : p.isEnabled = true) (hhint : hint < numRegionHint)
    (hp : ∀ cpu ∈ p.cpuSet, cpu < p.appStatus.numCpu)
    (hQ : Q ⟨⟩ { p with appStatus := p.appStatus.updateAll p.cpuSet fun status =>
      { status with hint := hint } }) :
    wp (setHint hint) Q E p := by
  unfold setHint
  simp only [wp_bind, wp_get, henabled, Bool.not_true]
  refine wp_forCpus _ (fun _ => by rfl) (fun cpu s hcpu => ?_) hp hQ
  unfold AppStatus.setHint
  simp only [wp_bind, wp_get, wp_ite, wp_throw]
  exact ⟨by omega, fun _ => wp_checkHint hhint (by rfl)⟩

theorem wp_clear (hp : ∀ cpu ∈ p.cpuSet, cpu < p.appStatus.numCpu)
    (hQ : Q ⟨⟩ { p with appStatus := p.appStatus.updateAll p.cpuSet fun _ =>
      { hint := hintUnset, hash := regionHashUnmarked, totalWork := 0, completedWork := 0 } }) :
    wp (forCpus fun cpu => do
      AppStatus.setHash cpu regionHashUnmarked hintUnset
      AppStatus.resetWorkUnits cpu) Q E p := by
  refine wp_forCpus _ (fun _ => by rfl) (fun cpu s hcpu => ?_) hp hQ
  unfold AppStatus.setHash AppStatus.resetWorkUnits
  simp only [wp_bind, wp_get, wp_ite, wp_throw]
  refine ⟨by omega, fun _ => ⟨by decide, fun _ => wp_checkHint (by decide) ?_⟩⟩
  simp only [wp_bind, wp_get, wp_ite, wp_throw, wp_modify]
  refine ⟨fun h => ?_, fun _ => ?_⟩
  · change s.numCpu ≤ cpu at h
    omega
  · simp [AppStatus.update, Function.update_idem]

end Profile

/-! ### Nested regions -/

/-- The profile of an application that is in the regions `regions`, innermost first. -/
structure Nested (p : Profile) (regions : List ℕ) (dumped : List Record) (clock : ℤ) : Prop where
  hints : p.hintStack = regions.map regionIdHint
  current : p.currentHash = (regions.getLast?.map regionIdHash).getD regionHashUnmarked
  marked : ∀ r, regions.getLast? = some r → regionIdHash r ≠ regionHashUnmarked
  cpus : ∀ cpu ∈ p.cpuSet, cpu < p.appStatus.numCpu
  status : ∀ cpu ∈ p.cpuSet, (p.appStatus.buffer cpu).hash = p.currentHash ∧
    (p.appStatus.buffer cpu).hint = p.hintStack.head?.getD hintUnset
  log : LogAt p.appRecordLog dumped (regions.getLast?.map regionIdHash) clock

namespace ProfileSystem

/-- After a call that returned or threw: the hint stack is empty if and only if no region is marked
as current, an open region of the log is the current one, every CPU of the process shows the current
region and the innermost hint, and the records are valid. -/
structure Consistent (s : ProfileSystem) : Prop where
  hints : s.profile.hintStack = [] ↔ s.profile.currentHash = regionHashUnmarked
  log : s.profile.appRecordLog.enteredHash ≠ regionHashInvalid →
    s.profile.currentHash ≠ regionHashUnmarked ∧
      s.profile.appRecordLog.enteredHash = s.profile.currentHash
  status : ∀ cpu ∈ s.profile.cpuSet,
    (s.profile.appStatus.buffer cpu).hash = s.profile.currentHash ∧
    (s.profile.appStatus.buffer cpu).hint = s.profile.hintStack.head?.getD hintUnset
  records : ({} : ValidateRecord).Accepts s.records

/-- The application leaves the region it entered last, and the clock does not go back. -/
def Proper (s : ProfileSystem) : ProfileAction → Prop
  | .enter _ now => s.clock ≤ now
  | .exit regionId now => s.clock ≤ now ∧ s.regions.head? = some regionId
  | .dump => True

instance (s : ProfileSystem) (a : ProfileAction) : Decidable (s.Proper a) := by
  unfold Proper
  split <;> infer_instance

/-- The record log can take the record of entering the region `hash`, if there is one. -/
def enterFits (l : RecordLog) (hash : ℕ) : Bool :=
  (l.reset.enterMap hash).isSome || decide (l.records.length < maxRecord)

/-- The record log can take the record of leaving the region `hash`, if there is one. -/
def exitFits (l : RecordLog) (hash : ℕ) : Bool :=
  (l.reset.enterMap hash).any (fun info => info.recordIdx.isSome) ||
    decide (l.records.length < maxRecord)

/-- A call that enters or leaves the outermost region finds room in the record log, and the region
is not `GEOPM_REGION_HASH_UNMARKED`. -/
def Room (s : ProfileSystem) : ProfileAction → Prop
  | .enter regionId _ => s.profile.isEnabled = true → s.profile.hintStack = [] →
    regionIdHash regionId ≠ regionHashUnmarked ∧
      enterFits s.profile.appRecordLog (regionIdHash regionId) = true
  | .exit regionId _ => s.profile.isEnabled = true → s.profile.hintStack.tail = [] →
    exitFits s.profile.appRecordLog (regionIdHash regionId) = true
  | .dump => True

end ProfileSystem

open ProfileSystem (enterFits)

theorem regionIdHint_lt (r : ℕ) : regionIdHint r < numRegionHint := by
  unfold regionIdHint
  dsimp only
  split_ifs with _ _ h
  · decide
  · decide
  · decide
  · omega

theorem validHash_regionIdHash (r : ℕ) : ValidateRecord.ValidHash (regionIdHash r) := by
  unfold regionIdHash ValidateRecord.ValidHash
  dsimp only
  split_ifs with h
  · decide
  · exact ⟨h, by unfold uint32Max; omega⟩

variable {r : ℕ}

namespace LogAt

variable {clock now : ℤ}

theorem enter (hl : LogAt l dumped none clock) (hnow : clock ≤ now)
    (hfits : enterFits l (regionIdHash r) = true) :
    wp (RecordLog.enter (regionIdHash r) now)
      (fun _ l' => LogAt l' dumped (some (regionIdHash r)) now) (fun _ _ => False) l := by
  refine wp_mono (hl.call (c := .enter (regionIdHash r) now) rfl (validHash_regionIdHash r) hnow)
    (fun _ _ h => h) ?_
  rintro _ l' ⟨hfull, hrefused⟩
  rw [reset_records] at hfull
  cases hrefused with
  | enter hmap => simp [enterFits, hmap, hfull] at hfits
  | note hnote => cases hnote

theorem exit (hl : LogAt l dumped (some (regionIdHash r)) clock) (hnow : clock ≤ now)
    (hfits : ProfileSystem.exitFits l (regionIdHash r) = true) :
    wp (RecordLog.exit (regionIdHash r) now)
      (fun _ l' => LogAt l' dumped none now) (fun _ _ => False) l := by
  refine wp_mono (hl.call (c := .exit (regionIdHash r) now) rfl (validHash_regionIdHash r) hnow)
    (fun _ _ h => h) ?_
  rintro _ l' ⟨hfull, hrefused⟩
  rw [reset_records] at hfull
  cases hrefused with
  | exitPlain hmap => simp [ProfileSystem.exitFits, hmap, hfull] at hfits
  | exitKept hmap hrecord => simp [ProfileSystem.exitFits, hmap, hfull, hrecord] at hfits
  | note hnote => cases hnote

end LogAt

section Steps

variable {regions : List ℕ} {clock now : ℤ}

theorem Nested.mono {p : Profile} {regions : List ℕ} {dumped : List Record} {clock clock' : ℤ}
    (hp : Nested p regions dumped clock) (hle : clock ≤ clock') :
    Nested p regions dumped clock' :=
  { hp with log := hp.log.mono hle }

/-- No region is marked as current outside all regions, and only there. -/
theorem Nested.current_iff (hp : Nested p regions dumped clock) :
    p.currentHash = regionHashUnmarked ↔ regions = [] := by
  rw [hp.current]
  cases hlast : regions.getLast? with
  | none => simpa using getLast?_eq_none_iff.mp hlast
  | some r =>
    refine ⟨fun h => absurd h (hp.marked r hlast), fun h => ?_⟩
    rw [h] at hlast
    cases hlast

theorem Nested.enter (hp : Nested p regions dumped clock) (henabled : p.isEnabled = true)
    (hnow : clock ≤ now)
    (hroom : p.hintStack = [] → regionIdHash r ≠ regionHashUnmarked ∧
      enterFits p.appRecordLog (regionIdHash r) = true) :
    wp (Profile.enter r now)
      (fun _ p' => p'.isEnabled = true ∧ Nested p' (r :: regions) dumped now)
      (fun _ _ => False) p := by
  unfold Profile.enter
  simp only [wp_bind, wp_get, henabled, Bool.not_true, Bool.false_eq_true, if_false]
  refine wp_checkHint (regionIdHint_lt r) ?_
  simp only [wp_bind, wp_get, wp_ite, wp_modify]
  refine ⟨fun hunmarked => ?_, fun hmarked => ?_⟩
  · obtain rfl := hp.current_iff.mp hunmarked
    obtain ⟨hhash, hfits⟩ := hroom hp.hints
    unfold Profile.onLog
    rw [wp_zoom]
    refine wp_mono (LogAt.enter hp.log hnow hfits) ?_ fun _ _ h => h
    rintro - l' hl'
    rw [wp_bind]
    refine Profile.wp_setHash (validHash_regionIdHash r).2 (regionIdHint_lt r) hp.cpus ?_
    refine ⟨henabled, ?_, rfl, ?_, hp.cpus, ?_, hl'⟩
    · simp [hp.hints]
    · rintro _ ⟨⟩
      exact hhash
    · intro cpu hcpu
      have hcpu' : cpu ∈ p.cpuSet := hcpu
      simp [AppStatus.updateAll, hcpu']
  · obtain ⟨r', regions, rfl⟩ := exists_cons_of_ne_nil fun h => hmarked (hp.current_iff.mpr h)
    refine Profile.wp_setHint henabled (regionIdHint_lt r) hp.cpus ?_
    refine ⟨henabled, ?_, hp.current, hp.marked, hp.cpus, ?_, hp.log.mono hnow⟩
    · simp [hp.hints]
    · intro cpu hcpu
      have hcpu' : cpu ∈ p.cpuSet := hcpu
      simpa [AppStatus.updateAll, hcpu'] using (hp.status cpu hcpu).1

theorem Nested.exit (hp : Nested p (r :: regions) dumped clock) (henabled : p.isEnabled = true)
    (hnow : clock ≤ now)
    (hroom : p.hintStack.tail = [] →
      ProfileSystem.exitFits p.appRecordLog (regionIdHash r) = true) :
    wp (Profile.exit r now)
      (fun _ p' => p'.isEnabled = true ∧ Nested p' regions dumped now)
      (fun _ _ => False) p := by
  have hhints : p.hintStack = regionIdHint r :: regions.map regionIdHint := hp.hints
  rw [hhints, tail_cons] at hroom
  unfold Profile.exit
  simp only [wp_bind, wp_get, henabled, Bool.not_true, Bool.false_eq_true, if_false, hhints,
    wp_modify]
  cases regions with
  | nil =>
    change wp (Profile.onLog _ >>= _) _ _ _
    rw [wp_bind]
    unfold Profile.onLog
    rw [wp_zoom]
    refine wp_mono (LogAt.exit hp.log hnow (hroom rfl)) ?_ fun _ _ h => h
    rintro - l' hl'
    rw [wp_bind, wp_modify]
    refine Profile.wp_clear hp.cpus ?_
    refine ⟨rfl, rfl, rfl, by simp, hp.cpus, ?_, hl'⟩
    intro cpu hcpu
    have hcpu' : cpu ∈ p.cpuSet := hcpu
    simp [AppStatus.updateAll, hcpu']
  | cons r' regions =>
    change wp (Profile.setHint _) _ _ _
    refine Profile.wp_setHint rfl (regionIdHint_lt r') hp.cpus ?_
    refine ⟨rfl, rfl, hp.current, hp.marked, hp.cpus, ?_, hp.log.mono hnow⟩
    intro cpu hcpu
    have hcpu' : cpu ∈ p.cpuSet := hcpu
    simpa [AppStatus.updateAll, hcpu'] using (hp.status cpu hcpu).1

theorem LogAt.cpusetChanged {l : RecordLog} (hl : LogAt l dumped none clock) (hnow : clock ≤ now)
    (numCpu : ℕ) (cpus : ℕ → Bool) :
    wp (RecordLog.cpusetChanged now numCpu cpus) (fun _ l' => LogAt l' dumped none now)
      (fun _ l' => LogAt l' dumped none now) l := by
  refine wp_forM (I := fun l => LogAt l dumped none now) (hl.mono hnow) fun cpu _ l hl => ?_
  exact wp_mono (hl.call (c := .affinity now cpu) trivial trivial (Int.le_refl _))
    (fun _ _ h => h) fun _ _ h => hl.refused_note rfl h.2

theorem Nested.resetCpuSet (hp : Nested p [] dumped clock) (hnow : clock ≤ now)
    (hnum : p.numCpu = p.appStatus.numCpu) (scheduler : Scheduler) :
    wp (Profile.resetCpuSet scheduler now) (fun _ p' => Nested p' [] dumped now)
      (fun _ p' => Nested p' [] dumped now) p := by
  have hhints : p.hintStack = [] := hp.hints
  have hcurrent : p.currentHash = regionHashUnmarked := hp.current
  have hcpus : ∀ cpu ∈ (List.range p.numCpu).filter scheduler.procCpuset,
      cpu < p.appStatus.numCpu := fun cpu hcpu =>
    hnum ▸ mem_range.mp (mem_filter.mp hcpu).1
  unfold Profile.resetCpuSet
  simp only [wp_bind, wp_modify, wp_get, hhints]
  refine Profile.wp_setHash (by rw [hcurrent]; decide) (by decide) ?_ ?_
  · exact fun cpu hcpu => hcpus cpu hcpu
  · unfold Profile.onLog
    rw [wp_zoom]
    refine wp_mono (hp.log.cpusetChanged hnow _ _) (fun _ l' hl' => ?_) fun _ l' hl' => ?_
    all_goals
      refine ⟨rfl, hcurrent, by simp, hcpus, fun cpu hcpu => ?_, hl'⟩
      have hbuffer : (p.appStatus.updateAll ((List.range p.numCpu).filter scheduler.procCpuset)
          fun status => { status with hash := p.currentHash, hint := hintUnset }).buffer cpu =
          { p.appStatus.buffer cpu with hash := p.currentHash, hint := hintUnset } := if_pos hcpu
      exact ⟨congrArg CpuStatus.hash hbuffer, congrArg CpuStatus.hint hbuffer⟩

theorem Nested.connect {process zero : ℤ} {scheduler : Scheduler} {numCpu profileHash : ℕ}
    (hnow : zero ≤ now) :
    wp (Profile.connect (.ok ()) scheduler profileHash zero now) (fun _ p => Nested p [] [] now)
      (fun _ p => Nested p [] [] now)
      { numCpu := numCpu
        appStatus := { numCpu := numCpu }
        appRecordLog := { process := process } } := by
  have hstart := (LogAt.init process zero).call (c := .startProfile zero profileHash) trivial
    trivial (Int.le_refl _)
  unfold Profile.connect
  simp only [wp_tryCatch, wp_bind]
  unfold Profile.onLog
  rw [wp_zoom]
  have hnested : ∀ l, LogAt l [] none zero → Nested { numCpu := numCpu
                                                      appStatus := { numCpu := numCpu }
                                                      appRecordLog := l } [] [] zero :=
    fun l hl => ⟨rfl, rfl, by simp, by simp, by simp, hl⟩
  refine wp_mono hstart (fun _ l hl => ?_) fun _ l hl => ?_
  · rw [wp_bind]
    refine wp_mono_ok ((hnested l hl).resetCpuSet hnow rfl scheduler) fun _ p hp => ?_
    exact ⟨hp.hints, hp.current, hp.marked, hp.cpus, hp.status, hp.log⟩
  · exact (hnested l ((LogAt.init process zero).refused_note rfl hl.2)).mono hnow

end Steps

namespace ProfileSystem

/-- The regions the application is in, as far as the profile knows. -/
def tracedRegions (s : ProfileSystem) : List ℕ :=
  if s.profile.isEnabled then s.regions else []

/-- The profile is in the regions of the application. -/
def Sound (s : ProfileSystem) : Prop := Nested s.profile s.tracedRegions s.dumped s.clock

variable {s : ProfileSystem}

theorem Sound.consistent (hs : s.Sound) : s.Consistent := by
  obtain ⟨haccepts, hentered⟩ := hs.log.spec
  refine ⟨?_, fun hopen => ?_, hs.status, haccepts⟩
  · rw [hs.current_iff, hs.hints, map_eq_nil_iff]
  · rw [hentered] at hopen ⊢
    have hcurrent := hs.current
    cases hlast : s.tracedRegions.getLast? with
    | none => simp [hlast] at hopen
    | some r =>
      rw [hlast] at hcurrent
      rw [hcurrent]
      exact ⟨hs.marked r hlast, rfl⟩

section Next

variable {P : ProfileSystem → Prop} {now : ℤ}

theorem next_enter (h : wp (Profile.enter r now)
      (fun _ p => P { s with profile := p, regions := r :: s.regions, clock := now })
      (fun _ p => P { s with profile := p, clock := now }) s.profile) :
    P (s.next (.enter r now)) := by
  unfold wp at h
  unfold next
  dsimp only
  cases hrun : Profile.enter r now s.profile <;> rw [hrun] at h <;> exact h

theorem next_exit (h : wp (Profile.exit r now)
      (fun _ p => P { s with profile := p, regions := s.regions.tail, clock := now })
      (fun _ p => P { s with profile := p, clock := now }) s.profile) :
    P (s.next (.exit r now)) := by
  unfold wp at h
  unfold next
  dsimp only
  cases hrun : Profile.exit r now s.profile <;> rw [hrun] at h <;> exact h

end Next

theorem sound_of_enabled
    (h : s.profile.isEnabled = true ∧ Nested s.profile s.regions s.dumped s.clock) : s.Sound := by
  unfold Sound tracedRegions
  rw [if_pos h.1]
  exact h.2

theorem sound_of_disabled
    (h : s.profile.isEnabled = false ∧ Nested s.profile [] s.dumped s.clock) : s.Sound := by
  unfold Sound tracedRegions
  rw [h.1]
  exact h.2

theorem Nested.emptied {p : Profile} {regions : List ℕ} {dumped : List Record} {clock : ℤ}
    (hp : Nested p regions dumped clock) :
    Nested { p with appRecordLog := p.appRecordLog.emptied } regions
      (dumped ++ p.appRecordLog.records) clock :=
  { hp with log := hp.log.emptied }

/-- A call that has room keeps the profile in the regions of the application. -/
theorem sound_next {a : ProfileAction} (hs : s.Sound) (hproper : s.Proper a)
    (hroom : s.Room a) : (s.next a).Sound := by
  unfold Sound tracedRegions at hs
  cases henabled : s.profile.isEnabled with
  | false =>
    -- The methods of a profile that is not enabled return at once.
    rw [henabled] at hs
    cases a with
    | enter r now =>
      refine next_enter ?_
      unfold Profile.enter
      simp only [wp_bind, wp_get, henabled, Bool.not_false, if_true, wp_pure]
      exact sound_of_disabled ⟨henabled, Nested.mono hs hproper⟩
    | exit r now =>
      refine next_exit ?_
      unfold Profile.exit
      simp only [wp_bind, wp_get, henabled, Bool.not_false, if_true, wp_pure]
      exact sound_of_disabled ⟨henabled, Nested.mono hs hproper.1⟩
    | dump => exact sound_of_disabled ⟨henabled, Nested.emptied hs⟩
  | true =>
    rw [henabled] at hs
    cases a with
    | enter r now =>
      refine next_enter (wp_mono (hs.enter henabled hproper (r := r) (hroom henabled)) ?_ ?_)
      · exact fun _ p h => sound_of_enabled h
      · exact fun _ _ h => h.elim
    | exit r now =>
      obtain ⟨hnow, hhead⟩ := hproper
      obtain ⟨rest, hrest⟩ := head?_eq_some_iff.mp hhead
      rw [if_pos rfl, hrest] at hs
      refine next_exit (wp_mono (hs.exit henabled hnow (hroom henabled)) ?_ ?_)
      · rintro - p h
        rw [hrest]
        exact sound_of_enabled h
      · exact fun _ _ h => h.elim
    | dump => exact sound_of_enabled ⟨henabled, Nested.emptied hs⟩

theorem start_sound {process zero now : ℤ} {scheduler : Scheduler} {numCpu profileHash : ℕ}
    (hnow : zero ≤ now) : (start process scheduler numCpu profileHash zero now).Sound := by
  unfold Sound tracedRegions start
  rw [ite_self]
  exact (wp_final (P := fun p => Nested p [] [] now)).mp (Nested.connect hnow)

end ProfileSystem

/-! ### Calls that find the buffer full -/

section Full

variable {now : ℤ}

/-- The outermost region is marked as current, although its `enter` has thrown. -/
theorem enter_full (henabled : p.isEnabled = true)
    (hcurrent : p.currentHash = regionHashUnmarked)
    (hfull : enterFits p.appRecordLog (regionIdHash r) = false) :
    wp (Profile.enter r now) (fun _ _ => False)
      (fun _ p' => p'.currentHash = regionIdHash r ∧ p'.hintStack = p.hintStack) p := by
  unfold Profile.enter
  simp only [wp_bind, wp_get, henabled, Bool.not_true, Bool.false_eq_true, if_false]
  refine wp_checkHint (regionIdHint_lt r) ?_
  simp only [wp_bind, wp_get, wp_ite, wp_modify]
  refine ⟨fun _ => ?_, fun hmarked => absurd hcurrent hmarked⟩
  unfold Profile.onLog
  rw [wp_zoom]
  unfold enterFits at hfull
  simp only [Bool.or_eq_false_iff, decide_eq_false_iff_not, Option.isSome_eq_false_iff,
    Option.isNone_iff_eq_none] at hfull
  obtain ⟨hmap, hroom⟩ := hfull
  refine wp_mono (RecordLog.enter_spec p.appRecordLog (regionIdHash r) now) ?_ ?_
  · rintro - l' hlogged
    cases hlogged with
    | enterNew _ hroom' => exact absurd (reset_records _ ▸ hroom') hroom
    | enterAgain hmap' =>
      rw [hmap] at hmap'
      cases hmap'
    | note hnote => cases hnote
  · exact fun _ _ _ => ⟨rfl, rfl⟩

theorem cpusetChanged_length {l : RecordLog} {numCpu : ℕ} {cpus : ℕ → Bool}
    (hne : l.records ≠ [])
    (hroom : l.records.length + ((List.range numCpu).filter cpus).length ≤ maxRecord) :
    wp (RecordLog.cpusetChanged now numCpu cpus)
      (fun _ l' => l'.records.length =
          l.records.length + ((List.range numCpu).filter cpus).length ∧ l'.enterMap = l.enterMap)
      (fun _ _ => False) l := by
  refine wp_mono (wp_forM_done (I := fun done l' => l'.records.length =
    l.records.length + done.length ∧ l'.enterMap = l.enterMap) ⟨rfl, rfl⟩ ?_) (fun _ _ h => h)
    fun _ _ h => h
  rintro pre cpu post hcpus l' ⟨hlen, hmap⟩
  have hpos : 0 < l.records.length := length_pos_of_ne_nil hne
  have hne' : l'.records ≠ [] := fun h => by
    rw [h] at hlen
    simp at hlen
    omega
  have hlt : pre.length < ((List.range numCpu).filter cpus).length := by
    rw [hcpus]
    simp
  unfold RecordLog.affinity RecordLog.appendEvent
  simp only [wp_bind, wp_modify, wp_get, wp_appendRecord, reset_of_ne_nil hne']
  refine ⟨fun _ => ⟨?_, hmap⟩, fun hfull => by omega⟩
  simp only [length_append, length_cons, length_nil]
  omega

/-- A process with `n` CPUs starts with `n + 1` records. -/
theorem start_records {n : ℕ} (hn : n < maxRecord) :
    let p := (ProfileSystem.start 1 ⟨n, fun _ => true⟩ n 7 0 0).profile
    p.isEnabled = true ∧ p.currentHash = regionHashUnmarked ∧ p.hintStack = [] ∧
      p.appRecordLog.records.length = n + 1 ∧ p.appRecordLog.enterMap = fun _ => none := by
  refine (wp_final (P := fun p : Profile => p.isEnabled = true ∧
    p.currentHash = regionHashUnmarked ∧ p.hintStack = [] ∧
      p.appRecordLog.records.length = n + 1 ∧ p.appRecordLog.enterMap = fun _ => none)).mp ?_
  have hcpus : (List.range n).filter (fun _ => true) = List.range n := by simp
  unfold Profile.connect Profile.resetCpuSet
  simp only [wp_tryCatch, wp_bind]
  unfold Profile.onLog
  rw [wp_zoom]
  have hstart : RecordLog.startProfile 0 7 { process := 1 } =
      .ok ⟨⟩ { process := 1, records := [⟨0, 1, .startProfile, 7⟩] } := rfl
  refine wp_of_ok hstart ?_
  simp only [wp_bind, wp_modify, wp_get]
  refine Profile.wp_setHash (by exact (by decide : regionHashUnmarked ≤ uint32Max))
    (by exact (by decide : hintUnset < numRegionHint)) ?_ ?_
  · intro cpu hcpu
    exact mem_range.mp (mem_filter.mp hcpu).1
  · rw [wp_zoom]
    refine wp_mono (cpusetChanged_length (by simp) ?_) ?_ fun _ _ h => h.elim
    · rw [hcpus, length_range]
      simp only [length_cons, length_nil]
      omega
    · rintro - l' ⟨hlen, hmap⟩
      rw [hcpus, length_range] at hlen
      refine ⟨rfl, rfl, rfl, ?_, hmap⟩
      simp only [hlen, length_cons, length_nil]
      omega

end Full

end Geopm
