import Geopm.App.EpochIOGroup
import Geopm.App.Shutdown

/-!
# The CPUs of the clients

The clients report their sets of CPUs and their epochs; the sampler and the epoch signal follow
them.

* `Report` : a change of the set of CPUs, or another record of a client;
* `AffinitySystem` : the sampler and the epoch signal, with the last set of each client and the
  number of its epochs;
* `AffinitySystem.Follows` : the sets, the flags of the CPUs and the counts are those of the
  clients;
* `follows_of_reachable` : they are in every run in which sets only grow, and in which a CPU that
  is gained has an epoch.
-/

namespace Geopm

open Prog ApplicationSampler
open EpochIOGroup (countsOn sample sample_spec pushed_init)
open List

/-! ### Reports -/

/-- What a client reports. -/
inductive Report where
  /-- A call of `cpuset_changed`. -/
  | cpusetChanged (time : ℤ) (procCpuset : ℕ → Bool)
  | other (record : Record)

namespace Report

/-- The set of CPUs of a change. -/
def cpuSet (numCpu : ℕ) : Report → Option (Finset ℕ)
  | .cpusetChanged _ procCpuset => some ((List.range numCpu).filter procCpuset).toFinset
  | .other _ => none

/-- The records of a report of the client `p`. -/
def records (numCpu : ℕ) (p : ℤ) : Report → List Record
  | .cpusetChanged time procCpuset =>
    ((List.range numCpu).filter procCpuset).map fun cpuIdx => ⟨time, p, .affinity, cpuIdx⟩
  | .other record => [record]

end Report

/-! ### The system -/

/-- The sampler and the epoch signal, the last set of CPUs that each client has reported, and how
many epochs of each client the sampler has given. -/
structure AffinitySystem where
  app : SamplerSystem
  group : EpochIOGroup
  latest : ℤ → Finset ℕ := fun _ => ∅
  epochs : ℤ → ℕ := fun _ => 0

/-- A control loop, with what the clients have reported since the last one. -/
structure LoopAction where
  currTime : ℤ
  reports : ℤ → List Report
  shortRegions : ℤ → List ShortRegion
  status : ℕ → CpuStatus

/-- The update of the loop. -/
def LoopAction.update (numCpu : ℕ) (a : LoopAction) : UpdateAction where
  currTime := a.currTime
  dump p := ⟨(a.reports p).flatMap (·.records numCpu p), a.shortRegions p⟩
  status := a.status

namespace AffinitySystem

/-- The system before the first loop, when signals have been pushed. -/
def init (numCpu : ℕ) (filter : Option RecordFilter) (pids : List ℤ) (status : ℕ → CpuStatus)
    (timeZero : ℤ) (group : EpochIOGroup) : AffinitySystem where
  app := .init numCpu filter pids status timeZero
  group := group

/-- The last set of CPUs of a client after its reports. -/
def latestAfter (numCpu : ℕ) (latest : Finset ℕ) (reports : List Report) : Finset ℕ :=
  reports.foldl (fun latest report => (report.cpuSet numCpu).getD latest) latest

/-- The update of a loop. -/
def update (numCpu : ℕ) (s : AffinitySystem) (a : LoopAction) : AffinitySystem :=
  let app := s.app.next (a.update numCpu)
  { s with
    app
    latest := fun p => latestAfter numCpu (s.latest p) (a.reports p)
    epochs := fun p => s.epochs p +
      ((ofEvent .epochCount app.sampler.recordBuffer).filter (·.process == p)).length }

/-- The epoch signal is read. -/
def readBatch (s : AffinitySystem) : AffinitySystem :=
  { s with group := s.group.readBatch s.app.sampler }

/-- A control loop. -/
def next (numCpu : ℕ) (s : AffinitySystem) (a : LoopAction) : AffinitySystem :=
  (s.update numCpu a).readBatch

/-- A client has the CPU in its last set. -/
def Owned (pids : List ℤ) (s : AffinitySystem) (cpuIdx : ℕ) : Prop :=
  ∃ p ∈ pids, cpuIdx ∈ s.latest p

instance (pids : List ℤ) (s : AffinitySystem) (cpuIdx : ℕ) : Decidable (s.Owned pids cpuIdx) := by
  unfold Owned
  infer_instance

/-- The client is the only one that has the CPU in its last set. -/
def Owns (pids : List ℤ) (s : AffinitySystem) (p : ℤ) (cpuIdx : ℕ) : Prop :=
  p ∈ pids ∧ cpuIdx ∈ s.latest p ∧ ∀ q ∈ pids, cpuIdx ∈ s.latest q → q = p

/-- What the clients report is well-formed. -/
def WellFormed (c : Option FilterConfig) (numCpu : ℕ) (pids : List ℤ) (s : AffinitySystem)
    (a : LoopAction) : Prop :=
  SamplerSystem.WellFormed numCpu pids s.app (a.update numCpu) ∧
    SamplerSystem.Filterable c pids (a.update numCpu) ∧
    ∀ p ∈ pids, ∀ r, Report.other r ∈ a.reports p → r.event ≠ .affinity

/-- The last set of every client contains its earlier ones. -/
def Grows (numCpu : ℕ) (pids : List ℤ) (s : AffinitySystem) (a : LoopAction) : Prop :=
  ∀ p ∈ pids, s.latest p ⊆ (s.update numCpu a).latest p ∧
    ∀ report ∈ a.reports p, ∀ cpus ∈ report.cpuSet numCpu, cpus ⊆ (s.update numCpu a).latest p

/-- A CPU of a client whose count is NaN, or is zero when its clients have stopped, has an epoch
among the records that are about to be read. -/
def Counted (pids : List ℤ) (s : AffinitySystem) : Prop :=
  ∀ cpuIdx ∈ s.group.activeSignal, s.Owned pids cpuIdx →
    (s.group.perCpuCount cpuIdx = none ∨
      s.group.perCpuCount cpuIdx = some 0 ∧ ¬ EpochIOGroup.IsValid s.app.sampler cpuIdx) →
    ∃ r ∈ s.app.sampler.recordBuffer, countsOn s.app.sampler cpuIdx r = true

/-- The sampler and the epoch signal follow the clients. -/
structure Follows (numCpu : ℕ) (pids : List ℤ) (s : AffinitySystem) : Prop where
  cpuSets : ∀ p ∈ pids, s.app.sampler.clientCpuSet p = s.latest p
  active : ∀ cpuIdx, s.app.sampler.isCpuActive cpuIdx = true ↔ s.Owned pids cpuIdx
  hashes : ∀ cpuIdx, s.app.sampler.cpuRegionHash cpuIdx =
    if s.Owned pids cpuIdx then (s.app.sampler.statusCache cpuIdx).hash else regionHashInvalid
  hints : ∀ cpuIdx < numCpu, wp (cpuHint cpuIdx) (fun hint _ => hint =
    if s.Owned pids cpuIdx then (s.app.sampler.statusCache cpuIdx).hint else hintInactive)
    (fun _ _ => False) s.app.sampler
  counts : s.group.isBatchRead = true → ∀ (i : ℕ) cpuIdx, s.group.activeSignal[i]? = some cpuIdx →
    wp (sample i) (fun count _ => (count = none ↔ ¬ s.Owned pids cpuIdx) ∧
      ∀ p, s.Owns pids p cpuIdx → count = some (s.epochs p)) (fun _ _ => False) s.group

end AffinitySystem

/-- The control loops of a controller, one after the other. -/
def affinitySystem (numCpu : ℕ) : Lts AffinitySystem LoopAction :=
  Lts.ofFun (AffinitySystem.next numCpu)

/-! ### The epochs of a client -/

variable {c : Option FilterConfig} {p : ℤ}

section Epochs

variable {rs out : List Record} {v : ValidateRecord} {proc : Process}

theorem ValidateRecord.advance_process (v : ValidateRecord) (r : Record) :
    (v.advance r).process = v.process ∧ (v.advance r).isEmpty = v.isEmpty := by
  unfold advance
  cases r.event <;> exact ⟨rfl, rfl⟩

/-- The records that are accepted are all of one process, and their epochs are numbered from one
on. -/
theorem ValidateRecord.facts_of_run (h : ({} : ValidateRecord).run rs = some v) :
    (v.isEmpty = true → rs = []) ∧ (∀ r ∈ rs, r.process = v.process) ∧
      (ofEvent .epochCount rs).length = v.epochCount ∧
      ∀ r, (ofEvent .epochCount rs).getLast? = some r → r.signal = v.epochCount := by
  induction rs using List.reverseRecOn generalizing v with
  | nil =>
    cases h
    exact ⟨fun _ => rfl, nofun, rfl, nofun⟩
  | append_singleton rs r ih =>
    obtain ⟨w, hw, hstep⟩ := run_concat_eq_some.mp h
    obtain ⟨hempty, hprocess, hlength, hlast⟩ := ih hw
    obtain ⟨hr, -, hallowed, rfl⟩ := step_eq_some.mp hstep
    have hstart : (w.start r).isEmpty = false ∧ (w.start r).epochCount = w.epochCount ∧
        ∀ q ∈ rs, q.process = (w.start r).process := by
      cases hw' : w.isEmpty with
      | true =>
        have hrs := hempty hw'
        rw [start_of_isEmpty hw', ← hlength, hrs]
        exact ⟨rfl, rfl, nofun⟩
      | false =>
        rw [start_of_not_isEmpty hw']
        exact ⟨hw', rfl, hprocess⟩
    obtain ⟨hadvance, hempty'⟩ := advance_process (w.start r) r
    refine ⟨fun h => ?_, fun q hq => ?_, ?_⟩
    · rw [hempty', hstart.1] at h
      cases h
    · rw [hadvance]
      obtain hq | hq := mem_append.mp hq
      · exact hstart.2.2 q hq
      · rw [mem_singleton.mp hq]
        exact hr
    · rw [ofEvent_append, length_append, hlength]
      by_cases hevent : r.event = .epochCount
      · have hone : ofEvent .epochCount [r] = [r] :=
          filter_cons_of_pos (beq_iff_eq.mpr hevent)
        have hsignal : r.signal = w.epochCount + 1 := by
          unfold Allowed at hallowed
          rw [hevent, hstart.2.1] at hallowed
          exact hallowed
        have hcount : ((w.start r).advance r).epochCount = r.signal := by
          unfold advance
          rw [hevent]
        rw [hone, hcount, hsignal]
        refine ⟨rfl, fun q hq => ?_⟩
        rw [getLast?_concat, Option.some.injEq] at hq
        rw [← hq, hsignal]
      · have hnone : ofEvent .epochCount [r] = [] :=
          filter_cons_of_neg fun h => hevent (beq_iff_eq.mp h)
        have hcount : ((w.start r).advance r).epochCount = w.epochCount := by
          rw [← hstart.2.1]
          unfold advance
          cases he : r.event <;> first | rfl | exact absurd he hevent
        rw [hnone, hcount, append_nil]
        exact ⟨rfl, hlast⟩

theorem ValidateRecord.signal_pos (h : ({} : ValidateRecord).run rs = some v) :
    ∀ r ∈ ofEvent .epochCount rs, 0 < r.signal := by
  intro r hr
  obtain ⟨hmem, hevent⟩ := mem_ofEvent.mp hr
  obtain ⟨pre, post, rfl⟩ := append_of_mem hmem
  rw [append_cons, run_append_eq_some] at h
  obtain ⟨w, hw, -⟩ := h
  have hpos : ofEvent .epochCount [r] = [r] := filter_cons_of_pos (beq_iff_eq.mpr hevent)
  obtain ⟨-, -, hlength, hlast⟩ := facts_of_run hw
  rw [ofEvent_append, hpos] at hlength hlast
  rw [hlast r getLast?_concat, ← hlength, length_append]
  exact Nat.lt_add_left _ Nat.zero_lt_one

theorem ApplicationSampler.Drained.process (h : Drained c rs out proc) (hrs : ClientStream p rs) :
    ∀ r ∈ out, r.process = p := by
  intro r hr
  obtain ⟨-, hprocess, -⟩ := ValidateRecord.facts_of_run h.1
  cases rs with
  | nil =>
    have hout : out = [] := by
      cases c with
      | none => exact h.2.2
      | some c =>
        obtain ⟨-, f, -, hfed⟩ := h
        obtain ⟨P, n, hfiltered⟩ := hfed.filtered
        generalize hnil : ([] : List Record) = rs at hfiltered
        cases hfiltered with
        | nil => rfl
        | drop => exact absurd hnil.symm (by simp)
        | pass => exact absurd hnil.symm (by simp)
        | mark => exact absurd hnil.symm (by simp)
    rw [hout] at hr
    cases hr
  | cons first rest =>
    -- The start record passes the filter.
    have hfirst : first ∈ out := by
      have hevent := (hrs.start [] first rest rfl).mpr rfl
      have hkeep : (!first.isEpoch) = true := by
        rw [Record.isEpoch, hevent]
        rfl
      have hmem : first ∈ out.filter fun r => !r.isEpoch := by
        rw [h.others]
        exact mem_filter.mpr ⟨mem_cons_self, hkeep⟩
      exact (mem_filter.mp hmem).1
    rw [hprocess r hr, ← hprocess first hfirst]
    exact hrs.process first mem_cons_self

end Epochs

namespace AffinitySystem

/-! ### The records of one update -/

variable {numCpu : ℕ} {cpuIdx : ℕ}

section Records

variable {ps : List ℤ} {f : ℤ → List Record} {latest : Finset ℕ} {reports : List Report}

theorem filter_flatMap (hps : ps.Nodup) (hp : p ∈ ps) (hf : ∀ q ∈ ps, ∀ r ∈ f q, r.process = q) :
    (ps.flatMap f).filter (fun r => r.process == p) = f p := by
  obtain ⟨pre, post, rfl⟩ := append_of_mem hp
  obtain ⟨-, hpost, hdisjoint⟩ := nodup_append.mp hps
  have hnone : ∀ qs : List ℤ, (∀ q ∈ qs, q ∈ pre ++ p :: post ∧ q ≠ p) →
      (qs.flatMap f).filter (fun r => r.process == p) = [] := by
    intro qs hqs
    refine filter_eq_nil_iff.mpr fun r hr heq => ?_
    obtain ⟨q, hq, hr⟩ := mem_flatMap.mp hr
    obtain ⟨hmem, hne⟩ := hqs q hq
    exact hne ((hf q hmem r hr).symm.trans (beq_iff_eq.mp heq))
  have hself : (f p).filter (fun r => r.process == p) = f p :=
    filter_eq_self.mpr fun r hr => beq_iff_eq.mpr (hf p hp r hr)
  rw [flatMap_append, flatMap_cons, filter_append, filter_append, hself,
    hnone pre, hnone post, nil_append, append_nil]
  · exact fun q hq => ⟨by simp [hq], fun h => (nodup_cons.mp hpost).1 (h ▸ hq)⟩
  · exact fun q hq => ⟨by simp [hq], hdisjoint q hq p mem_cons_self⟩

theorem mem_affinity (hother : ∀ r, Report.other r ∈ reports → r.event ≠ .affinity) :
    (∃ r ∈ ofEvent .affinity (reports.flatMap (·.records numCpu p)), r.signal = cpuIdx) ↔
      ∃ report ∈ reports, ∃ cpus ∈ report.cpuSet numCpu, cpuIdx ∈ cpus := by
  constructor
  · rintro ⟨r, hr, rfl⟩
    obtain ⟨hmem, hevent⟩ := mem_ofEvent.mp hr
    obtain ⟨report, hreport, hr⟩ := mem_flatMap.mp hmem
    cases report with
    | other q =>
      obtain rfl := mem_singleton.mp hr
      exact absurd hevent (hother _ hreport)
    | cpusetChanged time procCpuset =>
      obtain ⟨cpu, hcpu, rfl⟩ := mem_map.mp hr
      exact ⟨_, hreport, _, rfl, mem_toFinset.mpr hcpu⟩
  · rintro ⟨report, hreport, cpus, hcpus, hmem⟩
    cases report with
    | other q => cases hcpus
    | cpusetChanged time procCpuset =>
      cases hcpus
      refine ⟨⟨time, p, .affinity, cpuIdx⟩, mem_ofEvent.mpr ⟨?_, rfl⟩, rfl⟩
      exact mem_flatMap.mpr ⟨_, hreport, mem_map.mpr
        ⟨cpuIdx, mem_toFinset.mp hmem, rfl⟩⟩

theorem mem_latestAfter (h : cpuIdx ∈ latestAfter numCpu latest reports) :
    cpuIdx ∈ latest ∨ ∃ report ∈ reports, ∃ cpus ∈ report.cpuSet numCpu, cpuIdx ∈ cpus := by
  induction reports generalizing latest with
  | nil => exact .inl h
  | cons report reports ih =>
    obtain h | ⟨report', hmem, h⟩ := ih h
    · change cpuIdx ∈ (report.cpuSet numCpu).getD latest at h
      cases hset : report.cpuSet numCpu with
      | none =>
        rw [hset] at h
        exact .inl h
      | some cpus =>
        rw [hset] at h
        exact .inr ⟨report, mem_cons_self, cpus, hset, h⟩
    · exact .inr ⟨report', mem_cons_of_mem _ hmem, h⟩

end Records

/-! ### The invariant -/

/-- The counts of the pushed CPUs are those of their clients. -/
def CountsOk (pids : List ℤ) (s : AffinitySystem) : Prop :=
  ∀ cpuIdx ∈ s.group.activeSignal, (s.group.perCpuCount cpuIdx = none ↔ ¬ s.Owned pids cpuIdx) ∧
    ∀ p, s.Owns pids p cpuIdx → s.group.perCpuCount cpuIdx = some (s.epochs p)

/-- Nothing has been read, and no client has reported anything. -/
def Untouched (pids : List ℤ) (s : AffinitySystem) : Prop :=
  s.group.isBatchRead = false ∧ (∀ cpuIdx, s.group.perCpuCount cpuIdx = some 0) ∧
    ∀ p ∈ pids, s.latest p = ∅ ∧ s.epochs p = 0

/-- What holds after each update: the sampler follows the clients, whose epochs have been
counted. -/
structure Updated (c : Option FilterConfig) (numCpu : ℕ) (pids : List ℤ) (s : AffinitySystem) :
    Prop where
  app : s.app.Inv c numCpu pids
  epochs : ∃ sent, Ready c s.app.heard sent s.app.sampler ∧
    ∀ p ∈ pids, s.epochs p = (ofEvent .epochCount (sent p)).length
  cpuSets : ∀ p ∈ pids, s.app.sampler.clientCpuSet p = s.latest p
  others : ∀ p, p ∉ pids → s.app.sampler.clientCpuSet p = ∅
  active : ∀ cpuIdx ∈ s.group.activeSignal, cpuIdx < s.group.numCpu

/-- What every run keeps. -/
structure Inv (c : Option FilterConfig) (numCpu : ℕ) (pids : List ℤ) (s : AffinitySystem) :
    Prop where
  updated : s.Updated c numCpu pids
  counts : s.Untouched pids ∨ s.group.isBatchRead = true ∧ s.CountsOk pids

variable {pids : List ℤ} {s : AffinitySystem} {a : LoopAction}

section Step

theorem Updated.mem_cpuSet (h : s.Updated c numCpu pids) :
    cpuIdx ∈ s.app.sampler.clientCpuSet p ↔ p ∈ pids ∧ cpuIdx ∈ s.latest p := by
  by_cases hp : p ∈ pids
  · rw [h.cpuSets p hp]
    exact ⟨fun hmem => ⟨hp, hmem⟩, fun hmem => hmem.2⟩
  · rw [h.others p hp]
    exact ⟨fun hmem => absurd hmem (Finset.notMem_empty _), fun hmem => absurd hmem.1 hp⟩

/-- The sampler shows the CPUs of the clients. -/
theorem Updated.isCpuActive (h : s.Updated c numCpu pids) :
    s.app.sampler.isCpuActive cpuIdx = true ↔ s.Owned pids cpuIdx := by
  obtain ⟨sent, hready, -⟩ := h.epochs
  rw [hready.active]
  exact exists_congr fun p => h.mem_cpuSet

theorem Inv.follows (h : s.Inv c numCpu pids) : s.Follows numCpu pids where
  cpuSets := h.updated.cpuSets
  active _ := h.updated.isCpuActive
  hashes cpuIdx := by
    unfold cpuRegionHash
    exact if_congr h.updated.isCpuActive rfl rfl
  hints cpuIdx hcpu := by
    obtain ⟨sent, hready, -⟩ := h.updated.epochs
    have hnumCpu := h.updated.app.numCpu
    unfold cpuHint
    rw [wp_bind, wp_get, wp_ite]
    refine ⟨fun hactive => ?_, fun hactive => ?_⟩
    · unfold getHint
      rw [wp_bind, wp_get, if_neg (by omega), wp_bind]
      refine wp_checkHint (hready.hints cpuIdx (by omega)) ?_
      rw [wp_pure, if_pos (h.updated.isCpuActive.mp hactive)]
    · rw [wp_pure, if_neg fun howned => hactive (h.updated.isCpuActive.mpr howned)]
  counts hread i cpuIdx hi := by
    obtain huntouched | ⟨-, hcounts⟩ := h.counts
    · rw [huntouched.1] at hread
      cases hread
    · refine wp_mono (sample_spec hread hi) ?_ fun _ _ h => h
      rintro _ _ ⟨rfl, -⟩
      exact hcounts cpuIdx (mem_of_getElem? hi)

/-- What an update gives to `read_batch`: the new epochs of each client. -/
structure Given (pids : List ℤ) (s t : AffinitySystem) : Prop where
  group : t.group = s.group
  process : ∀ r ∈ ofEvent .epochCount t.app.sampler.recordBuffer, r.process ∈ pids ∧ 0 < r.signal
  last : ∀ p ∈ pids, ∀ r, ((ofEvent .epochCount t.app.sampler.recordBuffer).filter
    fun r => r.process == p).getLast? = some r → r.signal = t.epochs p
  none : ∀ p ∈ pids, (ofEvent .epochCount t.app.sampler.recordBuffer).filter
    (fun r => r.process == p) = [] → t.epochs p = s.epochs p

/-- An update adds the sets that are reported to those of the clients. -/
theorem update_spec (h : s.Updated c numCpu pids) (ha : s.WellFormed c numCpu pids a) :
    (s.update numCpu a).app.Inv c numCpu pids ∧ Given pids s (s.update numCpu a) ∧
    (∃ sent, Ready c (s.update numCpu a).app.heard sent (s.update numCpu a).app.sampler ∧
      ∀ p ∈ pids, (s.update numCpu a).epochs p = (ofEvent .epochCount (sent p)).length) ∧
    (∀ p, p ∉ pids → (s.update numCpu a).app.sampler.clientCpuSet p = ∅) ∧
    ∀ p ∈ pids, ∀ cpuIdx, cpuIdx ∈ (s.update numCpu a).app.sampler.clientCpuSet p ↔
      cpuIdx ∈ s.latest p ∨
        ∃ report ∈ a.reports p, ∃ cpus ∈ report.cpuSet numCpu, cpuIdx ∈ cpus := by
  obtain ⟨hwell, hfilterable, hother⟩ := ha
  obtain ⟨sent, hready, hepochs⟩ := h.epochs
  obtain ⟨sampler, o, hnext, hupdated, hready'⟩ :=
    SamplerSystem.next_eq h.app hready hfilterable hwell
  have hinv := (SamplerSystem.next_spec h.app hfilterable hwell).1
  have hmem := h.app.mem_processPids
  have happ : (s.update numCpu a).app =
      { s.app with sampler, heard := s.app.heardAfter (a.update numCpu) } := hnext
  have hprocess : ∀ q ∈ s.app.sampler.processPids, ∀ r ∈ ofEvent .epochCount (o q),
      r.process = q := by
    intro q hq r hr
    have hdrained := hready'.drained q (by rw [hupdated.processPids]; exact hq)
    exact hdrained.process (hwell.1 q ((hmem q).mp hq)) r
      (mem_append_right _ (mem_ofEvent.mp hr).1)
  have hbuffer : ofEvent .epochCount sampler.recordBuffer =
      s.app.sampler.processPids.flatMap fun q => ofEvent .epochCount (o q) :=
    hupdated.events .epochCount nofun
  have hof : ∀ p ∈ pids, (ofEvent .epochCount sampler.recordBuffer).filter
      (fun r => r.process == p) = ofEvent .epochCount (o p) := by
    intro p hp
    rw [hbuffer]
    exact filter_flatMap hready.pidsNodup ((hmem p).mpr hp) hprocess
  have hnew : ∀ p, (s.update numCpu a).epochs p = s.epochs p +
      ((ofEvent .epochCount sampler.recordBuffer).filter fun r => r.process == p).length := by
    intro p
    change s.epochs p + _ = _
    rw [hnext]
  have hrun : ∀ p ∈ pids, ({} : ValidateRecord).run (sent p ++ o p) =
      some (sampler.processes p).valid := fun p hp =>
    (hready'.drained p (by rw [hupdated.processPids]; exact (hmem p).mpr hp)).1
  have hlength : ∀ p ∈ pids, (s.update numCpu a).epochs p =
      (ofEvent .epochCount (sent p ++ o p)).length := by
    intro p hp
    rw [hnew, hof p hp, hepochs p hp, ofEvent_append, length_append]
  have hsets : ∀ p cpuIdx, cpuIdx ∈ sampler.clientCpuSet p ↔ cpuIdx ∈ s.app.sampler.clientCpuSet p ∨
      p ∈ pids ∧ ∃ r ∈ ofEvent .affinity ((a.reports p).flatMap (·.records numCpu p)),
        r.signal = cpuIdx := by
    intro p cpuIdx
    rw [hupdated.cpus, hupdated.others .affinity nofun nofun]
    refine or_congr_right ⟨?_, ?_⟩
    · rintro ⟨r, hr, rfl, rfl⟩
      obtain ⟨q, hq, hrq⟩ := mem_flatMap.mp hr
      have hq := (hmem q).mp hq
      have hrp : r.process = q :=
        (hwell.1 q hq).process r (mem_append_right _ (mem_ofEvent.mp hrq).1)
      rw [hrp]
      exact ⟨hq, r, hrq, rfl⟩
    · rintro ⟨hp, r, hr, rfl⟩
      refine ⟨r, mem_flatMap.mpr ⟨p, (hmem p).mpr hp, hr⟩, ?_, rfl⟩
      exact (hwell.1 p hp).process r (mem_append_right _ (mem_ofEvent.mp hr).1)
  rw [happ]
  refine ⟨hnext ▸ hinv, ⟨rfl, ?_, ?_, ?_⟩, ⟨_, hready', hlength⟩, ?_, ?_⟩
  · rw [happ]
    intro r hr
    obtain ⟨q, hq, hrq⟩ := mem_flatMap.mp (hbuffer ▸ hr)
    rw [hprocess q hq r hrq]
    refine ⟨(hmem q).mp hq, ValidateRecord.signal_pos (hrun q ((hmem q).mp hq)) r ?_⟩
    rw [ofEvent_append]
    exact mem_append_right _ hrq
  · rw [happ]
    intro p hp r hlast
    rw [hof p hp] at hlast
    obtain ⟨-, -, hcount, hsignal⟩ := ValidateRecord.facts_of_run (hrun p hp)
    rw [hlength p hp, hcount]
    refine hsignal r ?_
    rw [ofEvent_append, getLast?_append, hlast]
    rfl
  · rw [happ]
    intro p hp hnil
    rw [hnew, hnil]
    rfl
  · intro p hp
    refine Finset.eq_empty_of_forall_notMem fun cpuIdx hcpu => ?_
    obtain hold | hnew := (hsets p cpuIdx).mp hcpu
    · rw [h.others p hp] at hold
      exact Finset.notMem_empty _ hold
    · exact hp hnew.1
  · intro p hp cpuIdx
    change cpuIdx ∈ sampler.clientCpuSet p ↔ _
    rw [hsets, h.cpuSets p hp, mem_affinity (hother p hp)]
    exact or_congr_right ⟨fun h => h.2, fun h => ⟨hp, h⟩⟩

theorem cpuSets_of_grows (h : s.Updated c numCpu pids) (ha : s.WellFormed c numCpu pids a)
    (hgrows : s.Grows numCpu pids a) : (s.update numCpu a).Updated c numCpu pids := by
  obtain ⟨hinv, hgiven, hepochs, hothers, hsets⟩ := update_spec h ha
  refine ⟨hinv, hepochs, fun p hp => Finset.ext fun cpuIdx => ?_, hothers, ?_⟩
  · rw [hsets p hp]
    refine ⟨?_, fun hmem => mem_latestAfter hmem⟩
    rintro (hold | ⟨report, hreport, cpus, hcpus, hmem⟩)
    · exact (hgrows p hp).1 hold
    · exact (hgrows p hp).2 report hreport cpus hcpus hmem
  · rw [hgiven.group]
    exact h.active

theorem grows_of_cpuSets (h : s.Updated c numCpu pids) (ha : s.WellFormed c numCpu pids a)
    (hsets : ∀ p ∈ pids,
      (s.update numCpu a).app.sampler.clientCpuSet p = (s.update numCpu a).latest p) :
    s.Grows numCpu pids a := by
  obtain ⟨-, -, -, -, hmem⟩ := update_spec h ha
  refine fun p hp => ⟨fun cpuIdx hcpu => ?_, fun report hreport cpus hcpus cpuIdx hcpu => ?_⟩
  · rw [← hsets p hp, hmem p hp]
    exact .inl hcpu
  · rw [← hsets p hp, hmem p hp]
    exact .inr ⟨report, hreport, cpus, hcpus, hcpu⟩

section ReadBatch

variable {t : AffinitySystem}

/-- The count of a CPU after `read_batch`, with and without an epoch. -/
theorem perCpuCount_readBatch (t : AffinitySystem) (cpuIdx : ℕ) :
    t.readBatch.group.perCpuCount cpuIdx =
      let count := ((t.app.sampler.recordBuffer.filter
        (countsOn t.app.sampler cpuIdx)).getLast?).elim
          (t.group.perCpuCount cpuIdx) (some ·.signal)
      if cpuIdx < t.group.numCpu ∧ ¬ EpochIOGroup.IsValid t.app.sampler cpuIdx ∧ count = some 0
      then none else count := by
  rw [← EpochIOGroup.foldl_readRecord]
  rfl

theorem mem_filter_countsOn {r : Record}
    (hr : r ∈ t.app.sampler.recordBuffer.filter (countsOn t.app.sampler cpuIdx)) :
    r ∈ ofEvent .epochCount t.app.sampler.recordBuffer ∧
      cpuIdx ∈ t.app.sampler.clientCpuSet r.process := by
  obtain ⟨hmem, hcounts⟩ := mem_filter.mp hr
  unfold countsOn at hcounts
  rw [Bool.and_eq_true, beq_iff_eq, decide_eq_true_iff] at hcounts
  exact ⟨mem_ofEvent.mpr ⟨hmem, hcounts.1⟩, hcounts.2⟩

theorem filter_countsOn (ht : t.Updated c numCpu pids)
    (howns : t.Owns pids p cpuIdx) :
    t.app.sampler.recordBuffer.filter (countsOn t.app.sampler cpuIdx) =
      (ofEvent .epochCount t.app.sampler.recordBuffer).filter fun r => r.process == p := by
  have hcounts : ∀ r, countsOn t.app.sampler cpuIdx r =
      (decide (cpuIdx ∈ t.app.sampler.clientCpuSet r.process) && r.event == .epochCount) :=
    fun r => Bool.and_comm _ _
  have hsplit : t.app.sampler.recordBuffer.filter (countsOn t.app.sampler cpuIdx) =
      (ofEvent .epochCount t.app.sampler.recordBuffer).filter
        fun r => decide (cpuIdx ∈ t.app.sampler.clientCpuSet r.process) := by
    unfold ofEvent
    rw [filter_filter]
    exact filter_congr fun r _ => hcounts r
  rw [hsplit]
  refine filter_congr fun r hr => ?_
  rw [Bool.eq_iff_iff, decide_eq_true_iff, beq_iff_eq, ht.mem_cpuSet]
  refine ⟨fun h => howns.2.2 _ h.1 h.2, ?_⟩
  rintro rfl
  exact ⟨howns.1, howns.2.1⟩

theorem owned_of_isValid (ht : t.Updated c numCpu pids)
    (h : EpochIOGroup.IsValid t.app.sampler cpuIdx) : t.Owned pids cpuIdx := by
  obtain ⟨p, -, hcpu⟩ := h
  exact ⟨p, ht.mem_cpuSet.mp hcpu⟩

/-- After `read_batch` the counts are those of the clients, if every CPU of a client either kept
its count or has an epoch. -/
theorem countsOk_readBatch (hs : s.Untouched pids ∨ s.group.isBatchRead = true ∧ s.CountsOk pids)
    (ht : t.Updated c numCpu pids) (hgiven : Given pids s t)
    (hmono : ∀ p ∈ pids, s.latest p ⊆ t.latest p) (hcounted : t.Counted pids) :
    t.readBatch.CountsOk pids := by
  intro cpuIdx hactive
  change cpuIdx ∈ t.group.activeSignal at hactive
  have hcount := perCpuCount_readBatch t cpuIdx
  dsimp only at hcount
  cases hlast : (t.app.sampler.recordBuffer.filter
      (countsOn t.app.sampler cpuIdx)).getLast? with
  | some r =>
    obtain ⟨hr, hcpu⟩ := mem_filter_countsOn (mem_of_getLast? hlast)
    have hpos := (hgiven.process r hr).2
    rw [hlast, Option.elim_some] at hcount
    rw [if_neg fun h => by have := Option.some.inj h.2.2; omega] at hcount
    rw [hcount]
    refine ⟨⟨nofun, fun h => absurd ⟨r.process, ht.mem_cpuSet.mp hcpu⟩ h⟩, fun p howns => ?_⟩
    rw [filter_countsOn ht howns] at hlast
    rw [hgiven.last p howns.1 r hlast]
    rfl
  | none =>
    rw [hlast, Option.elim_none] at hcount
    by_cases howned : t.Owned pids cpuIdx
    · -- No epoch counts on the CPU, so its count is still that of its owner.
      have hkept : ¬ (t.group.perCpuCount cpuIdx = none ∨
          t.group.perCpuCount cpuIdx = some 0 ∧
            ¬ EpochIOGroup.IsValid t.app.sampler cpuIdx) := by
        intro h
        obtain ⟨r, hr, hcounts⟩ := hcounted cpuIdx hactive howned h
        have hnil := getLast?_eq_none_iff.mp hlast
        exact not_mem_nil (hnil ▸ mem_filter.mpr ⟨hr, hcounts⟩)
      rw [if_neg fun h => hkept (.inr ⟨h.2.2, h.2.1⟩)] at hcount
      rw [hcount]
      refine ⟨⟨fun h => absurd (.inl h) hkept, fun h => absurd howned h⟩, fun p howns => ?_⟩
      rw [filter_countsOn ht howns] at hlast
      have hsame := hgiven.none p howns.1 (getLast?_eq_none_iff.mp hlast)
      change t.group.perCpuCount cpuIdx = some (t.epochs p)
      rw [hgiven.group] at hactive hkept ⊢
      rw [hsame]
      obtain huntouched | ⟨-, hok⟩ := hs
      · rw [huntouched.2.1, (huntouched.2.2 p howns.1).2]
      · refine (hok cpuIdx hactive).2 p ?_
        have howned' : s.Owned pids cpuIdx := by
          by_contra h
          exact hkept (.inl ((hok cpuIdx hactive).1.mpr h))
        obtain ⟨q, hq, hcpu⟩ := howned'
        obtain rfl := howns.2.2 q hq (hmono q hq hcpu)
        exact ⟨hq, hcpu, fun q' hq' hcpu' => howns.2.2 q' hq' (hmono q' hq' hcpu')⟩
    · have hnone : t.readBatch.group.perCpuCount cpuIdx = none := by
        rw [hcount]
        have hinvalid : ¬ EpochIOGroup.IsValid t.app.sampler cpuIdx :=
          fun h => howned (owned_of_isValid ht h)
        obtain huntouched | ⟨-, hok⟩ := hs
        · have hzero : t.group.perCpuCount cpuIdx = some 0 := by
            rw [hgiven.group]
            exact huntouched.2.1 cpuIdx
          rw [if_pos ⟨ht.active cpuIdx hactive, hinvalid, hzero⟩]
        · have hbefore : t.group.perCpuCount cpuIdx = none := by
            rw [hgiven.group] at hactive ⊢
            refine (hok cpuIdx hactive).1.mpr fun ⟨p, hp, hcpu⟩ => ?_
            exact howned ⟨p, hp, hmono p hp hcpu⟩
          rw [hbefore]
          exact if_neg fun h => nomatch h.2.2
      refine ⟨⟨fun _ => howned, fun _ => hnone⟩, fun p howns => ?_⟩
      exact absurd ⟨p, howns.1, howns.2.1⟩ howned

theorem counted_of_countsOk (ht : t.Updated c numCpu pids) (hok : t.readBatch.CountsOk pids) :
    t.Counted pids := by
  intro cpuIdx hactive howned hcount
  by_contra hnone
  have hread := perCpuCount_readBatch t cpuIdx
  dsimp only at hread
  have hnil : t.app.sampler.recordBuffer.filter (countsOn t.app.sampler cpuIdx) =
      [] := filter_eq_nil_iff.mpr fun r hr h => hnone ⟨r, hr, h⟩
  rw [hnil, getLast?_nil, Option.elim_none] at hread
  refine (hok cpuIdx hactive).1.mp ?_ howned
  rw [hread]
  obtain hcount | ⟨hzero, hinvalid⟩ := hcount
  · rw [hcount]
    exact if_neg fun h => nomatch h.2.2
  · rw [if_pos ⟨ht.active cpuIdx hactive, hinvalid, hzero⟩]

end ReadBatch

end Step

/-! ### Runs -/

section Runs

variable {f : Option RecordFilter} {status : ℕ → CpuStatus} {timeZero : ℤ} {group : EpochIOGroup}

theorem inv_init (hf : makeFilter c = .ok f) (hstatus : HintsOk numCpu status)
    (hgroup : EpochIOGroup.Pushed numCpu group) :
    (init numCpu f pids status timeZero group).Inv c numCpu pids where
  updated :=
    { app := SamplerSystem.inv_init hf hstatus
      epochs := ⟨fun _ => [], ⟨ApplicationSampler.nodup_sortedPids,
        fun _ _ => SamplerSystem.drained_nil hf, hstatus, fun cpuIdx =>
          ⟨nofun, fun ⟨p, hp⟩ => absurd hp (Finset.notMem_empty _)⟩⟩, fun _ _ => rfl⟩
      cpuSets := fun _ _ => rfl
      others := fun _ _ => rfl
      active := fun cpuIdx hactive => by
        change cpuIdx < group.numCpu
        rw [hgroup.size]
        exact hgroup.active cpuIdx hactive }
  counts := .inl ⟨hgroup.isBatchRead, fun _ => congrFun hgroup.perCpuCount _, fun _ _ => ⟨rfl, rfl⟩⟩

/-- A loop whose sets grow, and which counts, keeps the invariant. -/
theorem inv_next (h : s.Inv c numCpu pids) (ha : s.WellFormed c numCpu pids a)
    (hgrows : s.Grows numCpu pids a) (hcounted : (s.update numCpu a).Counted pids) :
    (s.next numCpu a).Inv c numCpu pids := by
  have ht := cpuSets_of_grows h.updated ha hgrows
  have hgiven := (update_spec h.updated ha).2.1
  have hok := countsOk_readBatch h.counts ht hgiven (fun p hp => (hgrows p hp).1) hcounted
  exact ⟨⟨ht.app, ht.epochs, ht.cpuSets, ht.others, ht.active⟩, .inr ⟨rfl, hok⟩⟩

theorem counted_of_follows (h : s.Inv c numCpu pids) (ha : s.WellFormed c numCpu pids a)
    (hfollows : (s.next numCpu a).Follows numCpu pids) :
    s.Grows numCpu pids a ∧ (s.update numCpu a).Counted pids := by
  have hgrows := grows_of_cpuSets h.updated ha hfollows.cpuSets
  refine ⟨hgrows, counted_of_countsOk (cpuSets_of_grows h.updated ha hgrows) ?_⟩
  intro cpuIdx hactive
  obtain ⟨i, hi⟩ := mem_iff_getElem?.mp hactive
  refine wp_const.mp (wp_mono (wp_and (hfollows.counts rfl i cpuIdx hi)
    (sample_spec rfl hi)) ?_ fun _ _ h => h.1.elim)
  rintro _ _ ⟨hcount, rfl, -⟩
  exact hcount

end Runs

/-- A loop in which the client 1 reports `reports`. -/
def reporting (reports : List Report) : LoopAction :=
  { currTime := 0, reports := fun _ => reports, shortRegions := fun _ => [], status := fun _ => {} }

theorem wellFormed_reporting {s : AffinitySystem} {numCpu : ℕ} {reports : List Report}
    (h : ClientStream 1 (s.app.heard 1 ++ reports.flatMap (·.records numCpu 1)))
    (hother : ∀ r, Report.other r ∈ reports → r.event ≠ .affinity) :
    s.WellFormed none numCpu [1] (reporting reports) := by
  refine ⟨⟨fun p hp => ?_, fun _ _ => Nat.zero_lt_succ _⟩, fun _ _ => nofun, fun _ _ => hother⟩
  obtain rfl := mem_singleton.mp hp
  exact h

end AffinitySystem

end Geopm
