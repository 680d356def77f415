import Geopm.App.Sampler
import Geopm.App.FilteredStream

/-!
# What an update of the sampler does

* `Drained` : the filter and the validator of a process have taken its stream;
* `drainProcess_spec` : a drained log goes to the record buffer, filtered and checked;
* `updateStart_spec`, `updateStop_spec` : what the start, stop and affinity records change;
* `update_spec` : an update of well-formed streams raises no exception.
-/

namespace Geopm

open Prog
open List hiding get modify

namespace ApplicationSampler

/-- The filter and the validator of the process `p` have made `out` of the stream `rs` and accepted
it. -/
def Drained (c : Option FilterConfig) (rs out : List Record) (p : Process) : Prop :=
  ({} : ValidateRecord).run out = some p.valid ∧
    match c with
    | none => p.filter = none ∧ out = rs
    | some c => ∃ f, p.filter = some f ∧ RecordFilter.Fed c rs out f

/-- The filter does not have to compare entries in a history of size zero. -/
def Filters (c : Option FilterConfig) (rs : List Record) : Prop :=
  ∀ c' ∈ c, ¬ (c'.Historyless ∧ ∃ r ∈ rs, r.event = .regionEntry)

variable {c : Option FilterConfig} {r : Record}

section Drain

variable {rs out o : List Record} {p : Process} {s : ApplicationSampler} {pid : ℤ}
  {v : ValidateRecord}

/-- The records that are not epoch records pass the filter. -/
theorem Drained.others (h : Drained c rs out p) :
    out.filter (fun r => !r.isEpoch) = rs.filter fun r => !r.isEpoch := by
  cases c with
  | none => rw [h.2.2]
  | some c =>
    obtain ⟨-, f, -, hfed⟩ := h
    obtain ⟨P, n, hfiltered⟩ := hfed.filtered
    exact hfiltered.filter_not_isEpoch

@[simp] theorem setProcess_processes : (s.setProcess pid p).processes pid = p :=
  Function.update_self _ _ _

@[simp] theorem setProcess_setProcess {p' : Process} :
    (s.setProcess pid p).setProcess pid p' = s.setProcess pid p' := by
  unfold setProcess
  rw [Function.update_idem]

theorem setProcess_self : s.setProcess pid (s.processes pid) = s := by
  unfold setProcess
  rw [Function.update_eq_self]

theorem onValid_spec (h : (s.processes pid).valid.step r = some v) :
    wp (onValid pid r) (fun _ s' => s' = s.setProcess pid { s.processes pid with valid := v })
      (fun _ _ => False) s := by
  unfold onValid
  rw [wp_zoom]
  refine wp_mono (ValidateRecord.check_spec _ r) (fun _ v' hv' => ?_) fun _ _ hnone => ?_
  · rw [h] at hv'
    cases hv'
    rfl
  · rw [h] at hnone
    cases hnone

theorem forM_onValid (h : (s.processes pid).valid.run rs = some v) :
    wp (rs.forM (onValid pid))
      (fun _ s' => s' = s.setProcess pid { s.processes pid with valid := v })
      (fun _ _ => False) s := by
  induction rs generalizing s with
  | nil =>
    cases h
    exact setProcess_self.symm
  | cons r rs ih =>
    obtain ⟨w, hw, hrest⟩ := Option.bind_eq_some_iff.mp h
    change wp (onValid pid r >>= fun _ => rs.forM (onValid pid)) _ _ _
    rw [wp_bind]
    refine wp_mono (onValid_spec hw) ?_ fun _ _ h => h
    rintro - s' rfl
    refine wp_mono (ih (by rw [setProcess_processes]; exact hrest)) ?_ fun _ _ h => h
    rintro - s' rfl
    rw [setProcess_processes, setProcess_setProcess]

/-- The sampler after records of the process `pid` have been pushed onto the record buffer. -/
def pushed (s : ApplicationSampler) (pid : ℤ) (o : List Record) (p : Process) :
    ApplicationSampler :=
  { s.setProcess pid p with recordBuffer := s.recordBuffer ++ o }

@[simp] theorem pushed_processes : (s.pushed pid o p).processes pid = p := setProcess_processes

theorem pushed_pushed {o' : List Record} {p' : Process} :
    (s.pushed pid o p).pushed pid o' p' = s.pushed pid (o ++ o') p' := by
  unfold pushed setProcess
  simp only [Function.update_idem, append_assoc]

theorem setProcess_pushed {p' : Process} :
    (s.setProcess pid p').pushed pid o p = s.pushed pid o p := by
  unfold pushed setProcess
  rw [Function.update_idem]

theorem pushed_nil : s.pushed pid [] (s.processes pid) = s := by
  unfold pushed
  rw [setProcess_self, append_nil]

theorem forM_pushRecord (h : (s.processes pid).valid.run o = some v) :
    wp (o.forM (pushRecord pid))
      (fun _ s' => s' = s.pushed pid o { s.processes pid with valid := v })
      (fun _ _ => False) s := by
  induction o generalizing s with
  | nil =>
    cases h
    exact pushed_nil.symm
  | cons r o ih =>
    obtain ⟨w, hw, hrest⟩ := Option.bind_eq_some_iff.mp h
    change wp (pushRecord pid r >>= fun _ => o.forM (pushRecord pid)) _ _ _
    rw [wp_bind, pushRecord, wp_bind]
    refine wp_mono (onValid_spec hw) ?_ fun _ _ h => h
    rintro - s' rfl
    rw [wp_modify]
    have hpush : ({ s.setProcess pid { s.processes pid with valid := w } with
        recordBuffer := s.recordBuffer ++ [r] } : ApplicationSampler) =
        s.pushed pid [r] { s.processes pid with valid := w } := rfl
    refine wp_mono (ih (s := s.pushed pid [r] { s.processes pid with valid := w }) ?_) ?_
      fun _ _ h => h
    · rw [pushed_processes]
      exact hrest
    · rintro - s' rfl
      rw [pushed_processes, pushed_pushed]
      rfl

/-- The next record of a process: its filter takes it, and its validator accepts what comes out. -/
theorem filterRecord_spec {c : FilterConfig} (h : Drained (some c) rs out (s.processes pid))
    (hc : ¬ (c.Historyless ∧ r.event = .regionEntry))
    (hrs : ({} : ValidateRecord).Accepts (rs ++ [r])) :
    wp (filterRecord pid r >>= fun filtered => filtered.forM (pushRecord pid))
      (fun _ s' => ∃ o p, s' = s.pushed pid o p ∧ Drained (some c) (rs ++ [r]) (out ++ o) p)
      (fun _ _ => False) s := by
  obtain ⟨hrun, f, hf, hfed⟩ := h
  rw [wp_bind, filterRecord, wp_bind, wp_get]
  rw [hf]
  dsimp only
  rw [wp_zoom]
  refine wp_mono_ok (hfed.filter hc) fun o f' hfed' => ?_
  obtain ⟨P, n, hfiltered⟩ := hfed'.filtered
  obtain ⟨w, hw⟩ := ValidateRecord.accepts_iff.mp (hfiltered.accepted hrs)
  have hw' := hw
  rw [ValidateRecord.run_append, hrun] at hw'
  have hnext : ((s.setProcess pid { s.processes pid with filter := some f' }).processes
      pid).valid.run o = some w := by rw [setProcess_processes]; exact hw'
  refine wp_mono (forM_pushRecord hnext) ?_ fun _ _ h => h
  rintro - s' rfl
  refine ⟨o, { filter := some f', valid := w }, ?_, hw, f', rfl, hfed'⟩
  rw [setProcess_pushed, setProcess_processes]

theorem forM_filterRecord {c : FilterConfig} (h : Drained (some c) rs out (s.processes pid))
    {records : List Record} (hc : Filters (some c) records)
    (hrs : ({} : ValidateRecord).Accepts (rs ++ records)) :
    wp (records.forM fun r => filterRecord pid r >>= fun filtered => filtered.forM (pushRecord pid))
      (fun _ s' => ∃ o p, s' = s.pushed pid o p ∧ Drained (some c) (rs ++ records) (out ++ o) p)
      (fun _ _ => False) s := by
  refine wp_forM_done (I := fun pre s' => ∃ o p, s' = s.pushed pid o p ∧
    Drained (some c) (rs ++ pre) (out ++ o) p) ⟨[], s.processes pid, pushed_nil.symm, ?_⟩ ?_
  · rw [append_nil, append_nil]
    exact h
  · rintro pre r post hrecords - ⟨o, p, rfl, hdrained⟩
    have haccepts : ({} : ValidateRecord).Accepts (rs ++ pre ++ [r]) := by
      rw [hrecords, append_cons, ← append_assoc, ← append_assoc] at hrs
      obtain ⟨w, hw⟩ := ValidateRecord.accepts_iff.mp hrs
      obtain ⟨w', hw', -⟩ := ValidateRecord.run_append_eq_some.mp hw
      exact ValidateRecord.accepts_iff.mpr ⟨w', hw'⟩
    have hroom : ¬ (c.Historyless ∧ r.event = .regionEntry) := by
      rintro ⟨hless, hentry⟩
      exact hc c rfl ⟨hless, r, by rw [hrecords]; simp, hentry⟩
    have hdrained' : Drained (some c) (rs ++ pre) (out ++ o)
        ((s.pushed pid o p).processes pid) := by
      rw [pushed_processes]
      exact hdrained
    refine wp_mono (filterRecord_spec hdrained' hroom haccepts) ?_ fun _ _ h => h
    rintro - s' ⟨o', p', rfl, h'⟩
    rw [append_assoc, append_assoc] at h'
    exact ⟨o ++ o', p', pushed_pushed, h'⟩

theorem pushRecords_spec (h : Drained c rs out (s.processes pid)) {records : List Record}
    (hc : Filters c records) (hrs : ({} : ValidateRecord).Accepts (rs ++ records)) :
    wp (pushRecords pid records)
      (fun _ s' => ∃ o p, Drained c (rs ++ records) (out ++ o) p ∧ s' = s.pushed pid o p)
      (fun _ _ => False) s := by
  unfold pushRecords
  rw [wp_bind, wp_get, wp_ite]
  refine ⟨fun hsome => ?_, fun hnone => ?_⟩
  · cases c with
    | none =>
      rw [h.2.1] at hsome
      cases hsome
    | some c =>
      refine wp_mono (forM_filterRecord h hc hrs) ?_ fun _ _ h => h
      rintro - s' ⟨o, p, hs', hdrained⟩
      exact ⟨o, p, hdrained, hs'⟩
  · cases c with
    | none =>
      obtain ⟨hrun, hf, rfl⟩ := h
      obtain ⟨v, hv⟩ := ValidateRecord.accepts_iff.mp hrs
      have hv' := hv
      rw [ValidateRecord.run_append, hrun] at hv'
      rw [wp_bind]
      refine wp_mono (forM_onValid hv') ?_ fun _ _ h => h
      rintro - s' rfl
      rw [wp_modify]
      exact ⟨records, { s.processes pid with valid := v }, ⟨hv, hf, rfl⟩, rfl⟩
    | some c =>
      obtain ⟨-, f, hf, -⟩ := h
      rw [hf] at hnone
      exact absurd rfl hnone

theorem drainProcess_spec (h : Drained c rs out (s.processes pid)) {dump : ℤ → Dump}
    (hc : Filters c (dump pid).records)
    (hrs : ({} : ValidateRecord).Accepts (rs ++ (dump pid).records)) :
    wp (drainProcess dump pid)
      (fun _ s' => ∃ o p, Drained c (rs ++ (dump pid).records) (out ++ o) p ∧
        s' = { s.setProcess pid p with
          recordBuffer := s.recordBuffer ++
            reindex s.shortRegionBuffer.length (dump pid).shortRegions.length o
          shortRegionBuffer := s.shortRegionBuffer ++ (dump pid).shortRegions })
      (fun _ _ => False) s := by
  unfold drainProcess
  rw [wp_bind, wp_get, wp_bind]
  refine wp_mono (pushRecords_spec h hc hrs) ?_ fun _ _ h => h
  rintro - s' ⟨o, p, hdrained, rfl⟩
  rw [wp_modify]
  refine ⟨o, p, hdrained, ?_⟩
  unfold pushShortRegions pushed
  rw [take_left, drop_left]
  rfl

end Drain

/-- The records that are not short region records. -/
def unshort (rs : List Record) : List Record := rs.filter fun r => !(r.event == .shortRegion)

@[simp] theorem unshort_append (rs ss : List Record) :
    unshort (rs ++ ss) = unshort rs ++ unshort ss := filter_append ..

theorem unshort_reindex (offset remain : ℕ) (rs : List Record) :
    unshort (reindex offset remain rs) = unshort rs := by
  induction rs generalizing remain with
  | nil => cases remain <;> rfl
  | cons r rs ih =>
    cases remain with
    | zero => rfl
    | succ remain =>
      rw [reindex]
      split_ifs with hr
      · have hr' : (r.event == .shortRegion) = true := beq_iff_eq.mpr hr
        simp only [unshort, filter_cons, hr', Bool.not_true, Bool.false_eq_true, if_false]
        exact ih remain
      · have hr' : (r.event == .shortRegion) = false := beq_eq_false_iff_ne.mpr hr
        simp only [unshort, filter_cons, hr', Bool.not_false, if_true]
        exact congrArg _ (ih (remain + 1))

/-- Only the buffers and the processes differ. -/
def SameClients (s s' : ApplicationSampler) : Prop :=
  s' = { s with recordBuffer := s'.recordBuffer, shortRegionBuffer := s'.shortRegionBuffer,
                processes := s'.processes }

variable {heard sent : ℤ → List Record} {dump : ℤ → Dump}

section DrainAll

variable {s : ApplicationSampler}

/-- All logs are drained, into an empty record buffer. -/
theorem drainAll_spec (hnodup : s.processPids.Nodup) (hempty : s.recordBuffer = [])
    (h : ∀ p ∈ s.processPids, Drained c (heard p) (sent p) (s.processes p))
    (hc : ∀ p ∈ s.processPids, Filters c (dump p).records)
    (hrs : ∀ p ∈ s.processPids, ({} : ValidateRecord).Accepts (heard p ++ (dump p).records)) :
    wp (s.processPids.forM (drainProcess dump))
      (fun _ s' => ∃ o : ℤ → List Record,
        (∀ p ∈ s.processPids,
          Drained c (heard p ++ (dump p).records) (sent p ++ o p) (s'.processes p)) ∧
        unshort s'.recordBuffer = unshort (s.processPids.flatMap o) ∧ SameClients s s')
      (fun _ _ => False) s := by
  refine wp_mono (wp_forM_done (I := fun pre s' => ∃ o : ℤ → List Record,
    (∀ p ∈ pre, Drained c (heard p ++ (dump p).records) (sent p ++ o p) (s'.processes p)) ∧
    (∀ p, p ∉ pre → s'.processes p = s.processes p) ∧
    unshort s'.recordBuffer = unshort (pre.flatMap o) ∧ SameClients s s')
    ⟨fun _ => [], nofun, fun _ _ => rfl, by rw [hempty]; rfl, rfl⟩ ?_) ?_ fun _ _ h => h
  rotate_left
  · rintro - s' ⟨o, hdrained, -, hbuffer, hsame⟩
    exact ⟨o, hdrained, hbuffer, hsame⟩
  · rintro pre pid post hpids s' ⟨o, hdrained, hrest, hbuffer, hsame⟩
    rw [hpids] at hnodup h hc hrs
    have hmem : pid ∈ pre ++ pid :: post := mem_append_right _ mem_cons_self
    have hnew : pid ∉ pre := fun hp =>
      (nodup_append.mp hnodup).2.2 pid hp pid mem_cons_self rfl
    have hprocess : Drained c (heard pid) (sent pid) (s'.processes pid) := by
      rw [hrest pid hnew]
      exact h pid hmem
    refine wp_mono (drainProcess_spec hprocess (hc pid hmem) (hrs pid hmem)) ?_ fun _ _ h => h
    rintro - t ⟨o', p', hdrained', rfl⟩
    refine ⟨Function.update o pid o', fun p hp => ?_, fun p hp => ?_, ?_, ?_⟩
    · by_cases hpid : p = pid
      · subst hpid
        rw [Function.update_self]
        change Drained c _ _ (Function.update s'.processes p p' p)
        rw [Function.update_self]
        exact hdrained'
      · have hp : p ∈ pre := by
          obtain hp | hp := mem_append.mp hp
          · exact hp
          · exact absurd (mem_singleton.mp hp) hpid
        rw [Function.update_of_ne hpid]
        change Drained c _ _ (Function.update s'.processes pid p' p)
        rw [Function.update_of_ne hpid]
        exact hdrained p hp
    · have hpid : p ≠ pid := fun h => hp (mem_append_right _ (mem_singleton.mpr h))
      change Function.update s'.processes pid p' p = _
      rw [Function.update_of_ne hpid]
      exact hrest p fun hp' => hp (mem_append_left _ hp')
    · have hold : pre.flatMap (Function.update o pid o') = pre.flatMap o := by
        refine flatMap_congr fun p hp => ?_
        have hpid : p ≠ pid := fun hpid => hnew (hpid ▸ hp)
        exact Function.update_of_ne hpid _ _
      rw [flatMap_append, flatMap_singleton, Function.update_self, hold]
      change unshort (s'.recordBuffer ++ reindex _ _ o') = _
      rw [unshort_append, unshort_append, unshort_reindex, hbuffer]
    · unfold SameClients at hsame ⊢
      rw [hsame]
      rfl

end DrainAll

/-! ### The status of the CPUs -/

/-- The hints of a status table are hints. -/
def HintsOk (numCpu : ℕ) (status : ℕ → CpuStatus) : Prop :=
  ∀ cpuIdx < numCpu, (status cpuIdx).hint < numRegionHint

/-- A CPU is active when it is in the set of a client. -/
def Active (s : ApplicationSampler) : Prop :=
  ∀ cpuIdx, s.isCpuActive cpuIdx = true ↔ ∃ p, cpuIdx ∈ s.clientCpuSet p

/-- Only the hints that have been seen, and their times, differ. -/
def SameButHints (s s' : ApplicationSampler) : Prop :=
  s' = { s with hintLast := s'.hintLast, hintTime := s'.hintTime }

variable {cpuIdx : ℕ}

section Hints

variable {s s' : ApplicationSampler}

theorem SameButHints.refl (s : ApplicationSampler) : SameButHints s s := rfl

theorem cpuHint_spec (hs : HintsOk s.numCpu s.statusCache) (hcpu : cpuIdx < s.numCpu) :
    wp (cpuHint cpuIdx) (fun _ s' => s' = s) (fun _ _ => False) s := by
  unfold cpuHint
  rw [wp_bind, wp_get, wp_ite]
  refine ⟨fun _ => ?_, fun _ => by rw [wp_pure]⟩
  unfold getHint
  rw [wp_bind, wp_get, if_neg (by omega), wp_bind]
  exact wp_checkHint (hs cpuIdx hcpu) (by rw [wp_pure])

theorem updateHintLast_spec (hs : HintsOk s.numCpu s.statusCache) (hcpu : cpuIdx < s.numCpu)
    (h : SameButHints s s') :
    wp (updateHintLast cpuIdx) (fun _ => SameButHints s) (fun _ _ => False) s' := by
  have hs' : HintsOk s'.numCpu s'.statusCache := by
    rw [h]
    exact hs
  have hcpu' : cpuIdx < s'.numCpu := by
    rw [h]
    exact hcpu
  unfold updateHintLast
  rw [wp_bind]
  refine wp_mono (cpuHint_spec hs' hcpu') ?_ fun _ _ h => h
  rintro hint _ rfl
  rw [wp_modify]
  unfold SameButHints at h ⊢
  rw [h]

theorem addHintTime_same {timeDelta : ℤ} (h : SameButHints s s') :
    SameButHints s (addHintTime timeDelta cpuIdx s') := by
  unfold SameButHints addHintTime at *
  dsimp only
  rw [h]

/-- The loops over the CPUs raise nothing when the new status table holds hints. -/
theorem updateHints_spec {currTime : ℤ} {status : ℕ → CpuStatus}
    (hstatus : HintsOk s.numCpu status) :
    wp (updateHints currTime status) (fun _ => SameButHints { s with statusCache := status })
      (fun _ _ => False) s := by
  unfold updateHints
  rw [wp_bind, wp_modify, wp_bind, wp_get, wp_ite]
  refine ⟨fun _ => ?_, fun _ => ?_⟩
  · exact wp_forM (SameButHints.refl _) fun cpuIdx hcpu s' hs' =>
      updateHintLast_spec hstatus (mem_range.mp hcpu) hs'
  · refine wp_forM (SameButHints.refl _) fun cpuIdx hcpu s' hs' => ?_
    rw [wp_bind, wp_modify]
    exact updateHintLast_spec hstatus (mem_range.mp hcpu) (addHintTime_same hs')

theorem any_entries_iff : (s.clientCpuMap.entries.any fun client => cpuIdx ∈ client.2) = true ↔
    ∃ p, cpuIdx ∈ s.clientCpuSet p := by
  rw [any_eq_true]
  constructor
  · rintro ⟨⟨p, cpus⟩, hmem, hcpu⟩
    refine ⟨p, ?_⟩
    unfold clientCpuSet
    rw [Option.mem_def.mp (AList.mem_lookup_iff.mpr hmem)]
    exact of_decide_eq_true hcpu
  · rintro ⟨p, hcpu⟩
    unfold clientCpuSet at hcpu
    cases hlookup : s.clientCpuMap.lookup p with
    | none =>
      rw [hlookup] at hcpu
      exact absurd hcpu (Finset.notMem_empty _)
    | some cpus =>
      rw [hlookup] at hcpu
      exact ⟨⟨p, cpus⟩, AList.mem_lookup_iff.mp hlookup, decide_eq_true hcpu⟩

theorem updateCpuActive_spec (hs : HintsOk s.numCpu s.statusCache) :
    wp updateCpuActive
      (fun _ s' => Active s' ∧ SameButHints { s with isCpuActive := s'.isCpuActive } s')
      (fun _ _ => False) s := by
  unfold updateCpuActive
  rw [wp_bind, wp_modify, wp_bind, wp_get]
  refine wp_mono_ok (wp_forM (SameButHints.refl _) fun cpuIdx hcpu s' hs' =>
    updateHintLast_spec hs (mem_range.mp hcpu) hs') fun _ s' hs' => ?_
  have hactive : s'.isCpuActive =
      fun cpuIdx => s.clientCpuMap.entries.any fun client => cpuIdx ∈ client.2 := by rw [hs']
  have hmap : s'.clientCpuMap = s.clientCpuMap := by rw [hs']
  refine ⟨fun cpuIdx => ?_, ?_⟩
  · rw [hactive, any_entries_iff]
    unfold clientCpuSet
    rw [hmap]
  · unfold SameButHints at hs' ⊢
    rw [hactive]
    exact hs'

end Hints

/-! ### Clients that start and stop -/

/-- The records of an event. -/
def ofEvent (e : Event) (rs : List Record) : List Record := rs.filter fun r => r.event == e

@[simp] theorem ofEvent_append (e : Event) (rs ss : List Record) :
    ofEvent e (rs ++ ss) = ofEvent e rs ++ ofEvent e ss := filter_append ..

theorem mem_ofEvent {e : Event} {rs : List Record} {r : Record} :
    r ∈ ofEvent e rs ↔ r ∈ rs ∧ r.event = e := by
  unfold ofEvent
  rw [mem_filter, beq_iff_eq]

theorem ofEvent_unshort {e : Event} (he : e ≠ .shortRegion) (rs : List Record) :
    ofEvent e (unshort rs) = ofEvent e rs := by
  unfold ofEvent unshort
  rw [filter_filter]
  refine filter_congr fun r _ => ?_
  by_cases hr : r.event = e
  · rw [hr]
    cases e <;> first | rfl | exact absurd rfl he
  · rw [beq_eq_false_iff_ne.mpr hr]
    rfl

/-- Only what the records of `update_start` are for differs. -/
def SameButStart (s s' : ApplicationSampler) : Prop :=
  s' = { s with timeZero := s'.timeZero, numRegistered := s'.numRegistered,
                clientCpuMap := s'.clientCpuMap, overheads := s'.overheads }

section Start

variable {s s' : ApplicationSampler} {rs : List Record} {p : ℤ}

theorem startRecord_same (r : Record) (h : SameButStart s s') :
    SameButStart s (s'.startRecord r) := by
  unfold SameButStart startRecord at *
  cases r.event <;> dsimp only <;> rw [h]

variable (rs : List Record)

theorem foldl_startRecord_same (h : SameButStart s s') :
    SameButStart s (rs.foldl startRecord s') := by
  induction rs generalizing s' with
  | nil => exact h
  | cons r rs ih => exact ih (startRecord_same r h)

theorem numRegistered_foldl (s : ApplicationSampler) :
    (rs.foldl startRecord s).numRegistered =
      s.numRegistered + (ofEvent .startProfile rs).length := by
  induction rs generalizing s with
  | nil => exact (Int.add_zero _).symm
  | cons r rs ih =>
    rw [foldl_cons, ih, ofEvent, ofEvent, filter_cons]
    unfold startRecord
    cases r.event <;> simp
    omega

theorem mem_clientCpuSet_startRecord (r : Record) :
    cpuIdx ∈ (s.startRecord r).clientCpuSet p ↔
      cpuIdx ∈ s.clientCpuSet p ∨ (r.event = .affinity ∧ r.process = p ∧ r.signal = cpuIdx) := by
  unfold clientCpuSet
  by_cases hr : r.event = .affinity
  · have hmap : (s.startRecord r).clientCpuMap = s.clientCpuMap.insert r.process
        (insert r.signal (s.clientCpuSet r.process)) := by
      unfold startRecord
      rw [hr]
    rw [hmap]
    by_cases hp : r.process = p
    · subst hp
      rw [AList.lookup_insert, Option.getD_some, Finset.mem_insert]
      exact ⟨fun h => h.symm.imp_right fun h => ⟨hr, rfl, h.symm⟩,
        fun h => h.symm.imp_left fun h => h.2.2.symm⟩
    · rw [AList.lookup_insert_ne (Ne.symm hp)]
      exact ⟨Or.inl, fun h => h.resolve_right fun h => hp h.2.1⟩
  · have hmap : (s.startRecord r).clientCpuMap = s.clientCpuMap := by
      unfold startRecord
      split <;> first | rfl | exact absurd ‹_› hr
    rw [hmap]
    exact ⟨Or.inl, fun h => h.resolve_right fun h => hr h.1⟩

/-- The affinity records are added to the sets of CPUs of their clients. -/
theorem mem_clientCpuSet_foldl (s : ApplicationSampler) :
    cpuIdx ∈ (rs.foldl startRecord s).clientCpuSet p ↔
      cpuIdx ∈ s.clientCpuSet p ∨
        ∃ r ∈ ofEvent .affinity rs, r.process = p ∧ r.signal = cpuIdx := by
  induction rs generalizing s with
  | nil => exact ⟨Or.inl, fun h => h.resolve_right nofun⟩
  | cons r rs ih =>
    rw [foldl_cons, ih, mem_clientCpuSet_startRecord, or_assoc]
    refine or_congr_right ?_
    constructor
    · rintro (⟨hr, h⟩ | ⟨q, hq, h⟩)
      · exact ⟨r, mem_ofEvent.mpr ⟨mem_cons_self, hr⟩, h⟩
      · have hq' := mem_ofEvent.mp hq
        exact ⟨q, mem_ofEvent.mpr ⟨mem_cons_of_mem _ hq'.1, hq'.2⟩, h⟩
    · rintro ⟨q, hq, h⟩
      obtain ⟨hmem, hevent⟩ := mem_ofEvent.mp hq
      obtain rfl | hmem := mem_cons.mp hmem
      · exact Or.inl ⟨hevent, h⟩
      · exact Or.inr ⟨q, mem_ofEvent.mpr ⟨hmem, hevent⟩, h⟩

/-- What `update_start` changes: the clients that have started, and the CPUs of the clients. -/
theorem updateStart_spec (hs : HintsOk s.numCpu s.statusCache) (hactive : Active s) :
    wp updateStart
      (fun _ s' => Active s' ∧
        SameButHints { s.recordBuffer.foldl startRecord s with isCpuActive := s'.isCpuActive } s')
      (fun _ _ => False) s := by
  have hsame : SameButStart s (s.recordBuffer.foldl startRecord s) :=
    foldl_startRecord_same _ rfl
  have hnumCpu : (s.recordBuffer.foldl startRecord s).numCpu = s.numCpu := by rw [hsame]
  have hcache : (s.recordBuffer.foldl startRecord s).statusCache = s.statusCache := by rw [hsame]
  have hbuffer : (s.recordBuffer.foldl startRecord s).recordBuffer = s.recordBuffer := by
    rw [hsame]
  have hflags : (s.recordBuffer.foldl startRecord s).isCpuActive = s.isCpuActive := by rw [hsame]
  unfold updateStart
  rw [wp_bind, wp_modify, wp_bind, wp_get, wp_ite, hbuffer]
  refine ⟨fun _ => updateCpuActive_spec (by rw [hnumCpu, hcache]; exact hs), fun hnone => ?_⟩
  rw [wp_pure]
  refine ⟨fun cpuIdx => ?_, SameButHints.refl _⟩
  rw [hflags, hactive]
  refine exists_congr fun p => ?_
  rw [mem_clientCpuSet_foldl]
  refine ⟨Or.inl, fun h => h.resolve_right ?_⟩
  rintro ⟨r, hr, -⟩
  obtain ⟨hmem, hevent⟩ := mem_ofEvent.mp hr
  exact hnone (any_eq_true.mpr ⟨r, hmem, beq_iff_eq.mpr hevent⟩)

end Start

/-- The processes of the stop records. -/
def stops (rs : List Record) : List ℤ := (ofEvent .stopProfile rs).map (·.process)

/-- Only what the stop records are for differs. -/
def SameButStop (s s' : ApplicationSampler) : Prop :=
  s' = { s with lastStop := s'.lastStop, numRegistered := s'.numRegistered,
                clientPids := s'.clientPids, totalTime := s'.totalTime,
                doShutdown := s'.doShutdown }

section Stop

variable {s s' : ApplicationSampler} {pre : List Record}

/-- The clients of the first stop records have been removed. -/
def Stopped (s : ApplicationSampler) (pre : List Record) (s' : ApplicationSampler) : Prop :=
  SameButStop s s' ∧ s'.doShutdown = s.doShutdown ∧
    s'.numRegistered = s.numRegistered - (stops pre).length ∧
    s'.clientPids = s.clientPids.diff (stops pre)

theorem stopRecord_spec (h : Stopped s pre s')
    (hr : r.event = .stopProfile → r.process ∈ s'.clientPids) :
    wp (stopRecord r) (fun _ => Stopped s (pre ++ [r])) (fun _ _ => False) s' := by
  obtain ⟨hsame, hshutdown, hnum, hpids⟩ := h
  unfold stopRecord
  rw [wp_ite]
  refine ⟨fun hevent => ?_, fun hevent => ?_⟩
  · have hstops : stops (pre ++ [r]) = stops pre ++ [r.process] := by
      rw [stops, ofEvent_append, map_append]
      simp [stops, ofEvent, hevent]
    rw [wp_bind, wp_modify, wp_bind, wp_get, if_neg (not_not.mpr (hr hevent)), wp_set]
    refine ⟨?_, hshutdown, ?_, ?_⟩
    · unfold SameButStop at hsame ⊢
      rw [hsame]
    · rw [hstops, length_append]
      change s'.numRegistered - 1 = _
      rw [hnum, length_singleton]
      omega
    · rw [hstops, diff_append, ← hpids, diff_cons, diff_nil]
  · have hstops : stops (pre ++ [r]) = stops pre := by
      rw [stops, ofEvent_append, map_append]
      simp [stops, ofEvent, hevent]
    rw [wp_pure]
    unfold Stopped
    rw [hstops]
    exact ⟨hsame, hshutdown, hnum, hpids⟩

/-- The clients that stop are still connected, and stop once; then no record of `update_stop`
raises anything. -/
theorem updateStop_spec (hnodup : (stops s.recordBuffer).Nodup)
    (hsub : ∀ p ∈ stops s.recordBuffer, p ∈ s.clientPids) (hclients : s.clientPids.Nodup)
    (hnum : ((stops s.recordBuffer).length : ℤ) ≤ s.numRegistered) :
    wp updateStop
      (fun _ s' => SameButStop s s' ∧
        s'.numRegistered = s.numRegistered - (stops s.recordBuffer).length ∧
        s'.clientPids = s.clientPids.diff (stops s.recordBuffer) ∧
        s'.doShutdown = (s.doShutdown || decide (s.numRegistered ≠ 0 ∧
          s.numRegistered = (stops s.recordBuffer).length)))
      (fun _ _ => False) s := by
  unfold updateStop
  rw [wp_bind, wp_get, wp_bind]
  refine wp_mono (wp_forM_done (I := Stopped s) ⟨rfl, rfl, (Int.sub_zero _).symm, rfl⟩ ?_) ?_
    fun _ _ h => h
  · intro pre r post hbuffer s' hs'
    refine stopRecord_spec hs' fun hevent => ?_
    have hstops : stops s.recordBuffer = stops pre ++ r.process :: stops post := by
      rw [hbuffer, stops, ofEvent_append, map_append]
      simp [stops, ofEvent, hevent]
    rw [hstops] at hnodup hsub
    rw [hs'.2.2.2, hclients.mem_sdiff_iff]
    refine ⟨hsub _ (mem_append_right _ mem_cons_self), fun hpre => ?_⟩
    exact (nodup_append.mp hnodup).2.2 _ hpre _ mem_cons_self rfl
  · rintro - s' ⟨hsame, hshutdown, hnumber, hpids⟩
    rw [wp_bind, wp_get, if_neg (by omega), wp_ite]
    refine ⟨fun h => ?_, fun h => ?_⟩
    · rw [wp_set]
      refine ⟨?_, hnumber, hpids, ?_⟩
      · unfold SameButStop at hsame ⊢
        rw [hsame]
      · rw [decide_eq_true ⟨h.1, by omega⟩, Bool.or_true]
    · rw [wp_pure]
      refine ⟨hsame, hnumber, hpids, ?_⟩
      rw [hshutdown, decide_eq_false fun h' => h ⟨h'.1, by omega⟩, Bool.or_false]

end Stop

/-! ### The update -/

/-- The records of an event in the logs that an update drains. -/
def logged (pids : List ℤ) (dump : ℤ → Dump) (e : Event) : List Record :=
  pids.flatMap fun p => ofEvent e (dump p).records

/-- The sampler has drained the streams `heard`, from which its filters have made `sent`. -/
structure Ready (c : Option FilterConfig) (heard sent : ℤ → List Record) (s : ApplicationSampler) :
    Prop where
  pidsNodup : s.processPids.Nodup
  drained : ∀ p ∈ s.processPids, Drained c (heard p) (sent p) (s.processes p)
  hints : HintsOk s.numCpu s.statusCache
  active : Active s

/-- What an update has changed before it looks at the hints and the stop records. -/
structure Started (s : ApplicationSampler) (dump : ℤ → Dump) (o : ℤ → List Record)
    (s' : ApplicationSampler) : Prop where
  processPids : s'.processPids = s.processPids
  numCpu : s'.numCpu = s.numCpu
  events : ∀ e, e ≠ .shortRegion →
    ofEvent e s'.recordBuffer = s.processPids.flatMap fun p => ofEvent e (o p)
  others : ∀ e, e ≠ .shortRegion → e ≠ .epochCount →
    ofEvent e s'.recordBuffer = logged s.processPids dump e
  cpus : ∀ p cpuIdx, cpuIdx ∈ s'.clientCpuSet p ↔ cpuIdx ∈ s.clientCpuSet p ∨
    ∃ r ∈ ofEvent .affinity s'.recordBuffer, r.process = p ∧ r.signal = cpuIdx
  numRegistered : s'.numRegistered =
    s.numRegistered + (logged s.processPids dump .startProfile).length
  clientPids : s'.clientPids = s.clientPids
  doShutdown : s'.doShutdown = s.doShutdown

/-- What an update has changed, when its filters have made `o` of the logs. -/
structure Updated (s : ApplicationSampler) (dump : ℤ → Dump) (status : ℕ → CpuStatus)
    (o : ℤ → List Record) (s' : ApplicationSampler) : Prop where
  processPids : s'.processPids = s.processPids
  numCpu : s'.numCpu = s.numCpu
  statusCache : s'.statusCache = status
  events : ∀ e, e ≠ .shortRegion →
    ofEvent e s'.recordBuffer = s.processPids.flatMap fun p => ofEvent e (o p)
  others : ∀ e, e ≠ .shortRegion → e ≠ .epochCount →
    ofEvent e s'.recordBuffer = logged s.processPids dump e
  cpus : ∀ p cpuIdx, cpuIdx ∈ s'.clientCpuSet p ↔ cpuIdx ∈ s.clientCpuSet p ∨
    ∃ r ∈ ofEvent .affinity s'.recordBuffer, r.process = p ∧ r.signal = cpuIdx
  numRegistered : s'.numRegistered = s.numRegistered +
    (logged s.processPids dump .startProfile).length -
    (logged s.processPids dump .stopProfile).length
  clientPids : s'.clientPids =
    s.clientPids.diff ((logged s.processPids dump .stopProfile).map (·.process))
  doShutdown : s'.doShutdown = (s.doShutdown || decide (s'.numRegistered = 0 ∧
    s.numRegistered + (logged s.processPids dump .startProfile).length ≠ 0))

section Update

variable {s : ApplicationSampler} {currTime : ℤ} {status : ℕ → CpuStatus} {p p' : Process}
  {e : Event}

theorem ofEvent_filter_not_isEpoch (he : e ≠ .epochCount) (rs : List Record) :
    ofEvent e (rs.filter fun r => !r.isEpoch) = ofEvent e rs := by
  unfold ofEvent
  rw [filter_filter]
  refine filter_congr fun r _ => ?_
  by_cases hr : r.event = e
  · rw [Record.isEpoch, hr, beq_eq_false_iff_ne.mpr he, Bool.not_false, Bool.and_true]
  · rw [beq_eq_false_iff_ne.mpr hr]
    rfl

/-- What a filter makes of a log has the records of the log that are not epoch records. -/
theorem Drained.ofEvent_new {rs out ds o : List Record} (h : Drained c rs out p)
    (h' : Drained c (rs ++ ds) (out ++ o) p') (he : e ≠ .epochCount) :
    ofEvent e o = ofEvent e ds := by
  have hothers := h'.others
  rw [filter_append, filter_append, h.others] at hothers
  have hnew := append_cancel_left hothers
  rw [← ofEvent_filter_not_isEpoch he o, hnew, ofEvent_filter_not_isEpoch he]

/-- The logs are drained and the start records are dealt with. -/
theorem drainStart_spec (h : Ready c heard sent s)
    (hc : ∀ p ∈ s.processPids, Filters c (dump p).records)
    (haccepts : ∀ p ∈ s.processPids, ({} : ValidateRecord).Accepts (heard p ++ (dump p).records)) :
    wp (modify (fun s => { s with recordBuffer := [], shortRegionBuffer := [] }) >>= fun _ =>
        get >>= fun s => s.processPids.forM (drainProcess dump) >>= fun _ => updateStart)
      (fun _ s' => ∃ o, Started s dump o s' ∧ Active s' ∧ ∀ p ∈ s.processPids,
        Drained c (heard p ++ (dump p).records) (sent p ++ o p) (s'.processes p))
      (fun _ _ => False) s := by
  rw [wp_bind, wp_modify, wp_bind, wp_get, wp_bind]
  refine wp_mono (drainAll_spec (s := { s with recordBuffer := [], shortRegionBuffer := [] })
    h.pidsNodup rfl h.drained hc haccepts) ?_ fun _ _ h => h
  rintro - s₁ ⟨o, hdrained, hbuffer, hsame₁⟩
  have hints₁ : HintsOk s₁.numCpu s₁.statusCache := by
    rw [hsame₁]
    exact h.hints
  have hactive₁ : Active s₁ := by
    rw [hsame₁]
    exact h.active
  refine wp_mono (updateStart_spec hints₁ hactive₁) ?_ fun _ _ h => h
  rintro - s₂ ⟨hactive, hsame₂⟩
  have hstart : SameButStart s₁ (s₁.recordBuffer.foldl startRecord s₁) :=
    foldl_startRecord_same _ rfl
  have hbuffer₂ : s₂.recordBuffer = s₁.recordBuffer := by rw [hsame₂, hstart]
  have hevents : ∀ e, e ≠ .shortRegion →
      ofEvent e s₂.recordBuffer = s.processPids.flatMap fun p => ofEvent e (o p) := by
    intro e he
    rw [hbuffer₂, ← ofEvent_unshort he, hbuffer, ofEvent_unshort he]
    exact List.filter_flatMap
  have hothers : ∀ e, e ≠ .shortRegion → e ≠ .epochCount →
      ofEvent e s₂.recordBuffer = logged s.processPids dump e := by
    intro e he he'
    rw [hevents e he]
    exact flatMap_congr fun p hp => (h.drained p hp).ofEvent_new (hdrained p hp) he'
  have hnum₁ : s₁.numRegistered = s.numRegistered := by rw [hsame₁]
  have hnum₂ : s₂.numRegistered = (s₁.recordBuffer.foldl startRecord s₁).numRegistered := by
    rw [hsame₂]
  have hmap₁ : s₁.clientCpuMap = s.clientCpuMap := by rw [hsame₁]
  have hmap₂ : s₂.clientCpuMap = (s₁.recordBuffer.foldl startRecord s₁).clientCpuMap := by
    rw [hsame₂]
  refine ⟨o, ⟨?_, ?_, hevents, hothers, fun p cpuIdx => ?_, ?_, ?_, ?_⟩, hactive, ?_⟩
  · rw [hsame₂, hstart, hsame₁]
  · rw [hsame₂, hstart, hsame₁]
  · have hfold : cpuIdx ∈ (s₁.recordBuffer.foldl startRecord s₁).clientCpuSet p ↔ _ :=
      mem_clientCpuSet_foldl s₁.recordBuffer s₁
    unfold clientCpuSet at hfold ⊢
    rw [hmap₂, hfold, hmap₁, hbuffer₂]
  · rw [hnum₂, numRegistered_foldl, hnum₁, ← hbuffer₂, hothers .startProfile nofun nofun]
  · rw [hsame₂, hstart, hsame₁]
  · rw [hsame₂, hstart, hsame₁]
  · rw [hsame₂, hstart]
    exact hdrained

/-- The hints are read and the stop records are dealt with. -/
theorem hintsStop_spec (hstatus : HintsOk s.numCpu status) (hclients : s.clientPids.Nodup)
    (hnodup : (stops s.recordBuffer).Nodup) (hsub : ∀ p ∈ stops s.recordBuffer, p ∈ s.clientPids)
    (hnum : ((stops s.recordBuffer).length : ℤ) ≤ s.numRegistered) :
    wp ((updateHints currTime status >>= fun _ =>
        modify fun s => { s with isFirstUpdate := false, updateTime := currTime }) >>=
        fun _ => updateStop)
      (fun _ s' =>
        s' = { s with
          statusCache := status, hintLast := s'.hintLast, hintTime := s'.hintTime
          isFirstUpdate := s'.isFirstUpdate, updateTime := s'.updateTime, lastStop := s'.lastStop
          numRegistered := s'.numRegistered, clientPids := s'.clientPids
          totalTime := s'.totalTime, doShutdown := s'.doShutdown } ∧
        s'.numRegistered = s.numRegistered - (stops s.recordBuffer).length ∧
        s'.clientPids = s.clientPids.diff (stops s.recordBuffer) ∧
        s'.doShutdown = (s.doShutdown || decide (s.numRegistered ≠ 0 ∧
          s.numRegistered = (stops s.recordBuffer).length)))
      (fun _ _ => False) s := by
  rw [wp_bind, wp_bind]
  refine wp_mono (updateHints_spec hstatus) ?_ fun _ _ h => h
  rintro - s₃ hsame₃
  rw [wp_modify]
  have hbuffer : s₃.recordBuffer = s.recordBuffer := by rw [hsame₃]
  have hpids : s₃.clientPids = s.clientPids := by rw [hsame₃]
  have hcount : s₃.numRegistered = s.numRegistered := by rw [hsame₃]
  have hshutdown : s₃.doShutdown = s.doShutdown := by rw [hsame₃]
  refine wp_mono (updateStop_spec (s := { s₃ with isFirstUpdate := false, updateTime := currTime })
    ?_ ?_ ?_ ?_) ?_ fun _ _ h => h
  · change (stops s₃.recordBuffer).Nodup
    rw [hbuffer]
    exact hnodup
  · change ∀ p ∈ stops s₃.recordBuffer, p ∈ s₃.clientPids
    rw [hbuffer, hpids]
    exact hsub
  · change s₃.clientPids.Nodup
    rw [hpids]
    exact hclients
  · change ((stops s₃.recordBuffer).length : ℤ) ≤ s₃.numRegistered
    rw [hbuffer, hcount]
    exact hnum
  · rintro - s₅ ⟨hsame, hnumber, hclients', hshutdown'⟩
    dsimp only at hnumber hclients' hshutdown'
    rw [hbuffer, hcount] at hnumber hshutdown'
    rw [hbuffer, hpids] at hclients'
    rw [hshutdown] at hshutdown'
    refine ⟨?_, hnumber, hclients', hshutdown'⟩
    unfold SameButStop at hsame
    rw [hsame, hsame₃]

/-- An update of streams that the record check accepts raises nothing, as long as every client
that stops is connected and is counted. -/
theorem update_spec (h : Ready c heard sent s)
    (hc : ∀ p ∈ s.processPids, Filters c (dump p).records)
    (haccepts : ∀ p ∈ s.processPids, ({} : ValidateRecord).Accepts (heard p ++ (dump p).records))
    (hstatus : HintsOk s.numCpu status) (hclients : s.clientPids.Nodup)
    (hnodup : ((logged s.processPids dump .stopProfile).map (·.process)).Nodup)
    (hsub : ∀ p ∈ (logged s.processPids dump .stopProfile).map (·.process), p ∈ s.clientPids)
    (hnum : ((logged s.processPids dump .stopProfile).length : ℤ) ≤
      s.numRegistered + (logged s.processPids dump .startProfile).length) :
    wp (update currTime dump status)
      (fun _ s' => ∃ o, Updated s dump status o s' ∧
        Ready c (fun p => heard p ++ (dump p).records) (fun p => sent p ++ o p) s')
      (fun _ _ => False) s := by
  have hupdate : update currTime dump status =
      (modify (fun s => { s with recordBuffer := [], shortRegionBuffer := [] }) >>= fun _ =>
        get >>= fun s => s.processPids.forM (drainProcess dump) >>= fun _ => updateStart) >>=
      fun _ => (updateHints currTime status >>= fun _ =>
        modify (fun s => { s with isFirstUpdate := false, updateTime := currTime })) >>=
      fun _ => updateStop := by
    unfold update
    simp only [bind_assoc]
  rw [hupdate, wp_bind]
  refine wp_mono (drainStart_spec h hc haccepts) ?_ fun _ _ h => h
  rintro - s₂ ⟨o, hstarted, hactive, hdrained⟩
  have hstops : stops s₂.recordBuffer =
      (logged s.processPids dump .stopProfile).map (·.process) := by
    rw [stops, hstarted.others .stopProfile nofun nofun]
  refine wp_mono (hintsStop_spec (s := s₂) (by rw [hstarted.numCpu]; exact hstatus)
    (by rw [hstarted.clientPids]; exact hclients) (by rw [hstops]; exact hnodup)
    (by rw [hstops, hstarted.clientPids]; exact hsub)
    (by rw [hstops, hstarted.numRegistered, length_map]; exact hnum)) ?_ fun _ _ h => h
  rintro - s' ⟨hsame, hnumber, hpids, hshutdown⟩
  rw [hstops] at hnumber hpids hshutdown
  rw [length_map] at hnumber hshutdown
  have hbuffer : s'.recordBuffer = s₂.recordBuffer := by rw [hsame]
  have hmap : s'.clientCpuMap = s₂.clientCpuMap := by rw [hsame]
  have hprocesses : s'.processes = s₂.processes := by rw [hsame]
  have hprocessPids : s'.processPids = s.processPids := by rw [hsame, hstarted.processPids]
  have hnumCpu : s'.numCpu = s.numCpu := by rw [hsame, hstarted.numCpu]
  have hcache : s'.statusCache = status := by rw [hsame]
  have hflags : s'.isCpuActive = s₂.isCpuActive := by rw [hsame]
  have hcpuSet : s'.clientCpuSet = s₂.clientCpuSet := by
    funext p
    unfold clientCpuSet
    rw [hmap]
  refine ⟨o, ⟨hprocessPids, hnumCpu, hcache, ?_, ?_, ?_, ?_, ?_, ?_⟩, ?_, ?_, ?_, ?_⟩
  · rw [hbuffer]
    exact hstarted.events
  · rw [hbuffer]
    exact hstarted.others
  · rw [hbuffer, hcpuSet]
    exact hstarted.cpus
  · rw [hnumber, hstarted.numRegistered]
  · rw [hpids, hstarted.clientPids]
  · rw [hshutdown, hstarted.doShutdown, hnumber, hstarted.numRegistered]
    congr 1
    refine decide_eq_decide.mpr ⟨fun h => ⟨by omega, h.1⟩, fun h => ⟨h.2, by omega⟩⟩
  · rw [hprocessPids]
    exact h.pidsNodup
  · rw [hprocessPids, hprocesses]
    exact hdrained
  · rw [hnumCpu, hcache]
    exact hstatus
  · unfold Active
    rw [hflags, hcpuSet]
    exact hactive

end Update

end ApplicationSampler

end Geopm
