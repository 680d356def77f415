import Geopm.App.ProcessRegionAggregator

/-!
# The reported averages of a region

The controller updates the sampler and then the reporter, which adds up what the sampler tells.

* `Passed` : what the filter and the validator have made of the log of a process;
* `update_delivers` : an update of the sampler tells the records of all processes, as far as the
  aggregator reads them;
* `Reporting` : the sampler, the aggregator, and what the processes have told so far;
* `exact_iff_of_reachable` : when the averages of a region are exact.
-/

namespace Geopm

open Prog
open ApplicationSampler
open List
open Record

variable {dump : ℤ → Dump} {pids : List ℤ}

namespace ApplicationSampler

/-- The validator has accepted `o`, which has the records of `rs` but for epoch records. -/
structure Passed (v : ValidateRecord) (rs o : List Record) (v' : ValidateRecord) : Prop where
  run : v.run o = some v'
  kept : ∀ q, NoEpochs q → o.filter q = rs.filter q

variable {pid : ℤ}

section Passed

variable {v v' v'' : ValidateRecord} {rs rs' o o' : List Record} {r : Record}
  {s : ApplicationSampler}

theorem Passed.nil : Passed v [] [] v := ⟨rfl, fun _ _ => rfl⟩

theorem Passed.append (h : Passed v rs o v') (h' : Passed v' rs' o' v'') :
    Passed v (rs ++ rs') (o ++ o') v'' := by
  refine ⟨ValidateRecord.run_append_eq_some.mpr ⟨v', h.run, h'.run⟩, fun q hq => ?_⟩
  rw [filter_append, filter_append, h.kept q hq, h'.kept q hq]

variable (s : ApplicationSampler)

/-- The record is checked, and may be one that the validator accepts. -/
theorem onValid_passed :
    wp (onValid pid r)
      (fun _ s' => ∃ v, (s.processes pid).valid.step r = some v ∧
        s' = s.setProcess pid { s.processes pid with valid := v })
      (fun _ _ => True) s := by
  unfold onValid
  rw [wp_zoom]
  exact wp_mono (ValidateRecord.check_spec _ r) (fun _ v hv => ⟨v, hv, rfl⟩) fun _ _ _ => trivial

theorem forM_onValid_passed :
    wp (rs.forM (onValid pid))
      (fun _ s' => ∃ v, (s.processes pid).valid.run rs = some v ∧
        s' = s.setProcess pid { s.processes pid with valid := v })
      (fun _ _ => True) s := by
  induction rs generalizing s with
  | nil => exact ⟨_, rfl, setProcess_self.symm⟩
  | cons r rs ih =>
    change wp (onValid pid r >>= fun _ => rs.forM (onValid pid)) _ _ _
    rw [wp_bind]
    refine wp_mono (onValid_passed s) ?_ fun _ _ h => h
    rintro - s' ⟨v, hv, rfl⟩
    refine wp_mono (ih _) ?_ fun _ _ h => h
    rintro - s' ⟨w, hw, rfl⟩
    rw [setProcess_processes] at hw ⊢
    exact ⟨w, Option.bind_eq_some_iff.mpr ⟨v, hv, hw⟩, setProcess_setProcess⟩

theorem forM_pushRecord_passed :
    wp (o.forM (pushRecord pid))
      (fun _ s' => ∃ v, (s.processes pid).valid.run o = some v ∧
        s' = s.pushed pid o { s.processes pid with valid := v })
      (fun _ _ => True) s := by
  induction o generalizing s with
  | nil => exact ⟨_, rfl, pushed_nil.symm⟩
  | cons r o ih =>
    change wp (pushRecord pid r >>= fun _ => o.forM (pushRecord pid)) _ _ _
    rw [wp_bind, pushRecord, wp_bind]
    refine wp_mono (onValid_passed s) ?_ fun _ _ h => h
    rintro - s' ⟨v, hv, rfl⟩
    rw [wp_modify]
    have hpush : ({ s.setProcess pid { s.processes pid with valid := v } with
        recordBuffer := s.recordBuffer ++ [r] } : ApplicationSampler) =
        s.pushed pid [r] { s.processes pid with valid := v } := rfl
    refine wp_mono (ih (s.pushed pid [r] { s.processes pid with valid := v })) ?_ fun _ _ h => h
    rintro - s' ⟨w, hw, rfl⟩
    rw [pushed_processes] at hw ⊢
    exact ⟨w, Option.bind_eq_some_iff.mpr ⟨v, hv, hw⟩, pushed_pushed⟩

theorem filterRecord_passed :
    wp (filterRecord pid r >>= fun filtered => filtered.forM (pushRecord pid))
      (fun _ s' => ∃ o p, Passed (s.processes pid).valid [r] o p.valid ∧ s' = s.pushed pid o p)
      (fun _ _ => True) s := by
  rw [wp_bind]
  unfold filterRecord
  rw [wp_bind, wp_get]
  cases hf : (s.processes pid).filter with
  | none =>
    dsimp only
    rw [wp_pure]
    refine wp_mono (forM_pushRecord_passed s) ?_ fun _ _ h => h
    rintro - s' ⟨v, hv, rfl⟩
    exact ⟨[r], _, ⟨hv, fun _ _ => rfl⟩, rfl⟩
  | some f =>
    dsimp only
    rw [wp_zoom]
    refine wp_mono_ok (filter_kept r f) fun o f' hkept => ?_
    refine wp_mono (forM_pushRecord_passed _) ?_ fun _ _ h => h
    rintro - s' ⟨v, hv, rfl⟩
    rw [setProcess_processes] at hv ⊢
    exact ⟨o, _, ⟨hv, hkept⟩, setProcess_pushed⟩

theorem pushRecords_passed :
    wp (pushRecords pid rs)
      (fun _ s' => ∃ o p, Passed (s.processes pid).valid rs o p.valid ∧ s' = s.pushed pid o p)
      (fun _ _ => True) s := by
  unfold pushRecords
  rw [wp_bind, wp_get, wp_ite]
  refine ⟨fun _ => ?_, fun _ => ?_⟩
  · refine wp_forM_done (I := fun pre s' => ∃ o p, Passed (s.processes pid).valid pre o p.valid ∧
      s' = s.pushed pid o p) ⟨[], _, .nil, pushed_nil.symm⟩ ?_
    rintro pre r post - - ⟨o, p, hpassed, rfl⟩
    refine wp_mono (filterRecord_passed _) ?_ fun _ _ h => h
    rintro - s' ⟨o', p', hpassed', rfl⟩
    rw [pushed_processes] at hpassed'
    exact ⟨o ++ o', p', hpassed.append hpassed', pushed_pushed⟩
  · rw [wp_bind]
    refine wp_mono (forM_onValid_passed s) ?_ fun _ _ h => h
    rintro - s' ⟨v, hv, rfl⟩
    rw [wp_modify]
    exact ⟨rs, _, ⟨hv, fun _ _ => rfl⟩, rfl⟩

end Passed

/-- A choice of records that leaves out the epoch records and the short region records. -/
def Plain (q : Record → Bool) : Prop :=
  NoEpochs q ∧ ∀ r : Record, r.event = .shortRegion → q r = false

/-- The logs of the processes `pids` have been drained into empty buffers. -/
structure Delivered (s : ApplicationSampler) (dump : ℤ → Dump) (pids : List ℤ)
    (s' : ApplicationSampler) : Prop where
  processPids : s'.processPids = s.processPids
  passed : ∀ p ∈ pids, ∃ o,
    Passed (s.processes p).valid (dump p).records o (s'.processes p).valid
  others : ∀ p ∉ pids, s'.processes p = s.processes p
  kept : ∀ q, Plain q → s'.recordBuffer.filter q = pids.flatMap fun p => (dump p).records.filter q
  regions : s'.shortRegionBuffer = pids.flatMap fun p => (dump p).shortRegions

section Drain

variable {s s' : ApplicationSampler}

/-- The choice of records does not see that the short region records have been moved. -/
theorem filter_reindex {q : Record → Bool} (hq : Plain q) (offset remain : ℕ) (rs : List Record) :
    (reindex offset remain rs).filter q = rs.filter q := by
  have hunshort : ∀ rs : List Record, (unshort rs).filter q = rs.filter q := by
    intro rs
    rw [unshort, filter_filter]
    refine filter_congr fun r _ => ?_
    cases he : r.event == .shortRegion with
    | true => simp [hq.2 r (beq_iff_eq.mp he)]
    | false => simp
  rw [← hunshort, unshort_reindex, hunshort]

theorem Delivered.drain (h : s.Delivered dump pids s') (hpid : pid ∉ pids) :
    wp (drainProcess dump pid)
      (fun _ t => s.Delivered dump (pids ++ [pid]) t ∧ t.clientPids = s'.clientPids)
      (fun _ _ => True) s' := by
  unfold drainProcess
  rw [wp_bind, wp_get, wp_bind]
  refine wp_mono (pushRecords_passed s') ?_ fun _ _ h => h
  rintro - t ⟨o, p, hpassed, rfl⟩
  rw [wp_modify]
  have hself : (pushShortRegions s'.recordBuffer.length (dump pid).shortRegions
      (s'.pushed pid o p)).processes pid = p := Function.update_self _ _ _
  have hother : ∀ q ≠ pid, (pushShortRegions s'.recordBuffer.length (dump pid).shortRegions
      (s'.pushed pid o p)).processes q = s'.processes q := fun q hq =>
    Function.update_of_ne hq _ _
  refine ⟨⟨h.processPids, fun q hq => ?_, fun q hq => ?_, fun q hq => ?_, ?_⟩, rfl⟩
  · by_cases heq : q = pid
    · subst heq
      rw [hself]
      rw [h.others q hpid] at hpassed
      exact ⟨o, hpassed⟩
    · rw [hother q heq]
      refine h.passed q ((mem_append.mp hq).resolve_right fun hmem => heq ?_)
      exact mem_singleton.mp hmem
  · have hne : q ≠ pid := fun heq => hq (heq ▸ mem_append_right _ (mem_singleton_self _))
    rw [hother q hne]
    exact h.others q fun hmem => hq (mem_append_left _ hmem)
  · have hbuffer : (pushShortRegions s'.recordBuffer.length (dump pid).shortRegions
        (s'.pushed pid o p)).recordBuffer =
        s'.recordBuffer ++
          reindex s'.shortRegionBuffer.length (dump pid).shortRegions.length o := by
      unfold pushShortRegions pushed
      rw [take_left, drop_left]
      rfl
    rw [hbuffer, filter_append, filter_reindex hq, h.kept q hq, hpassed.kept q hq.1,
      flatMap_append, flatMap_singleton]
  · change s'.shortRegionBuffer ++ (dump pid).shortRegions = _
    rw [h.regions, flatMap_append, flatMap_singleton]

theorem drainAll_delivered (hpids : pids.Nodup) (hempty : s.recordBuffer = [])
    (hempty' : s.shortRegionBuffer = []) :
    wp (pids.forM (drainProcess dump))
      (fun _ s' => s.Delivered dump pids s' ∧ s'.clientPids = s.clientPids) (fun _ _ => True)
      s := by
  refine wp_forM_done (I := fun pre s' => s.Delivered dump pre s' ∧
    s'.clientPids = s.clientPids) ⟨⟨rfl, nofun, fun _ _ => rfl, fun _ _ => by rw [hempty]; rfl,
      hempty'⟩, rfl⟩ ?_
  rintro pre pid post rfl s' ⟨hs', hclients⟩
  have hnew : pid ∉ pre := fun hp =>
    (nodup_append.mp hpids).2.2 pid hp pid mem_cons_self rfl
  refine wp_mono (hs'.drain hnew) ?_ fun _ _ h => h
  rintro - t ⟨ht, hclients'⟩
  exact ⟨ht, hclients'.trans hclients⟩

theorem Delivered.of_logs {t : ApplicationSampler} (h : s.Delivered dump pids s')
    (ht : logs t = logs s') : s.Delivered dump pids t := by
  obtain ⟨hrecords, hrest⟩ := Prod.mk.inj ht
  obtain ⟨hregions, hrest⟩ := Prod.mk.inj hrest
  obtain ⟨hprocesses, hpids⟩ := Prod.mk.inj hrest
  refine ⟨hpids.trans h.processPids, fun p hp => ?_, fun p hp => ?_, fun q hq => ?_,
    hregions.trans h.regions⟩
  · rw [hprocesses]
    exact h.passed p hp
  · rw [hprocesses]
    exact h.others p hp
  · rw [hrecords]
    exact h.kept q hq

end Drain

section Update

variable {s s' : ApplicationSampler} {status : ℕ → CpuStatus} {currTime : ℤ}

theorem stopRecord_clients {r : Record} (hr : r.event ≠ .stopProfile) (s : ApplicationSampler) :
    wp (stopRecord r) (fun _ s' => s' = s) (fun _ _ => True) s := by
  unfold stopRecord
  rw [if_neg hr, wp_pure]

theorem updateStop_clients (hstops : ∀ r ∈ s.recordBuffer, r.event ≠ .stopProfile) :
    wp updateStop (fun _ s' => s'.clientPids = s.clientPids) (fun _ _ => True) s := by
  unfold updateStop
  rw [wp_bind, wp_get, wp_bind]
  refine wp_mono (wp_forM (I := fun s' => s' = s) rfl fun r hr s' hs' => ?_) ?_ fun _ _ h => h
  · subst hs'
    exact stopRecord_clients (hstops r hr) s'
  · rintro - s' rfl
    simp only [wp_bind, wp_ite, wp_get, wp_throw, wp_set, wp_pure]
    exact ⟨fun _ => trivial, fun _ => ⟨fun _ => trivial, fun _ => trivial⟩⟩

/-- No client has stopped according to these logs. -/
def NoStops (dump : ℤ → Dump) (pids : List ℤ) : Prop :=
  ∀ p ∈ pids, ∀ r ∈ (dump p).records, r.event ≠ .stopProfile

theorem Delivered.no_stops {pids : List ℤ} (h : s.Delivered dump pids s')
    (hstops : NoStops dump pids) : ∀ r ∈ s'.recordBuffer, r.event ≠ .stopProfile := by
  intro r hr hevent
  have hplain : Plain fun r => r.event == .stopProfile :=
    ⟨fun r hr => by simp [hr], fun r hr => by simp [hr]⟩
  have hmem : r ∈ s'.recordBuffer.filter fun r => r.event == .stopProfile :=
    mem_filter.mpr ⟨hr, beq_iff_eq.mpr hevent⟩
  rw [h.kept _ hplain] at hmem
  obtain ⟨p, hp, hmem⟩ := mem_flatMap.mp hmem
  exact hstops p hp r (mem_filter.mp hmem).1 hevent

/-- What an update that returns has made of the logs. -/
theorem update_delivers (hpids : s.processPids.Nodup)
    (hupdate : update currTime dump status s = .ok () s') :
    s.Delivered dump s.processPids s' ∧
      (NoStops dump s.processPids → s'.clientPids = s.clientPids) := by
  have hspec : wp (update currTime dump status) (fun _ s' => s.Delivered dump s.processPids s' ∧
      (NoStops dump s.processPids → s'.clientPids = s.clientPids)) (fun _ _ => True) s := by
    unfold update
    rw [wp_bind, wp_modify, wp_bind, wp_get, wp_bind]
    refine wp_mono (drainAll_delivered hpids rfl rfl) ?_ fun _ _ h => h
    rintro - t ⟨ht, hclients⟩
    have hdelivered : s.Delivered dump s.processPids t :=
      ⟨ht.processPids, ht.passed, ht.others, ht.kept, ht.regions⟩
    rw [wp_bind]
    refine wp_mono (updateStart_keeps t) (fun _ t₁ ht₁ => ?_) fun _ _ _ => trivial
    rw [wp_bind]
    refine wp_mono (updateHints_keeps t₁) (fun _ t₂ ht₂ => ?_) fun _ _ _ => trivial
    rw [wp_bind, wp_modify]
    obtain ⟨hlogs, hclients'⟩ := Prod.mk.inj (ht₂.trans ht₁)
    have hdelivered' : s.Delivered dump s.processPids
        { t₂ with isFirstUpdate := false, updateTime := currTime } := hdelivered.of_logs hlogs
    have hstop : wp updateStop
        (fun _ s' => NoStops dump s.processPids → s'.clientPids = s.clientPids) (fun _ _ => True)
        { t₂ with isFirstUpdate := false, updateTime := currTime } := by
      by_cases hstops : NoStops dump s.processPids
      · refine wp_mono_ok (updateStop_clients (hdelivered'.no_stops hstops)) fun _ s' hs' _ => ?_
        exact hs'.trans (hclients'.trans hclients)
      · exact wp_mono (wp_const.mpr trivial) (fun _ _ _ h => absurd h hstops) fun _ _ _ => trivial
    exact wp_mono (wp_and (updateStop_keeps _) hstop)
      (fun _ s' hs' => ⟨hdelivered'.of_logs hs'.1, hs'.2⟩) fun _ _ _ => trivial
  unfold wp at hspec
  rw [hupdate] at hspec
  exact hspec

end Update

end ApplicationSampler

/-! ### What a process has told -/

/-- The records of a dump, as the aggregator reads them under the time zero `zero`. -/
def Dump.readings (zero : ℤ) (d : Dump) : List ProcessRegionAggregator.Reading :=
  ProcessRegionAggregator.readings zero d.shortRegions d.records

/-- The logs hold the records of their own processes, and each short region record points at a
short region of its own dump. -/
structure DumpsOk (pids : List ℤ) (dump : ℤ → Dump) : Prop where
  process : ∀ p ∈ pids, ∀ r ∈ (dump p).records, r.process = p
  points : ∀ p ∈ pids, PointsAt (dump p).records (dump p).shortRegions

namespace ProcessRegionAggregator

open ApplicationSampler (shorts Delivered KeepsOwners Resolves)

section Readings

variable {p zero : ℤ} {regions : List ShortRegion} {rs : List Record}

theorem ofProcess_readings : ofProcess p (readings zero regions rs) =
    readings zero regions (rs.filter fun r => r.process = p) := by
  rw [ofProcess, readings, readings, filter_map, filter_filter, filter_filter]
  refine congrArg _ (filter_congr fun r _ => ?_)
  exact Bool.and_comm ..

theorem bounds_readings :
    bounds (readings zero regions rs) = (rs.filter isBoundary).map fun r => (r, zero) := by
  rw [bounds, readings, filter_map, map_map, filter_filter]
  refine congrArg _ (filter_congr fun r _ => ?_)
  simp only [Function.comp_apply, isRead]
  cases r.isBoundary <;> simp

theorem shorts_readings : (readings zero regions rs).filterMap Reading.short =
    (shorts rs).filterMap fun r => regions[r.signal]? := by
  rw [readings, filterMap_map, filterMap_filter, shorts, filterMap_filter]
  refine filterMap_congr fun r _ => ?_
  by_cases hr : r.event = .shortRegion
  · simp [isRead, Reading.short, hr]
  · simp [Reading.short, hr]

/-- The elements of one owner among those of all owners, one owner after the other. -/
theorem filter_flatMap_owner {α : Type} {key : α → ℤ} {f : ℤ → List α} {pids : List ℤ}
    (hpids : pids.Nodup) (hkey : ∀ q ∈ pids, ∀ x ∈ f q, key x = q) :
    (pids.flatMap f).filter (fun x => key x = p) = if p ∈ pids then f p else [] := by
  induction pids with
  | nil => rfl
  | cons q pids ih =>
    obtain ⟨hq, hpids⟩ := nodup_cons.mp hpids
    rw [flatMap_cons, filter_append,
      ih hpids fun q hq => hkey q (mem_cons_of_mem _ hq)]
    have hown := hkey q mem_cons_self
    by_cases hp : p = q
    · subst hp
      rw [if_neg hq, if_pos mem_cons_self, append_nil]
      exact filter_eq_self.mpr fun x hx => decide_eq_true (hown x hx)
    · have hnone : (f q).filter (fun x => key x = p) = [] :=
        filter_eq_nil_iff.mpr fun x hx h => hp ((of_decide_eq_true h).symm.trans (hown x hx))
      rw [hnone, nil_append]
      simp only [mem_cons, hp, false_or]

end Readings

section Told

variable {s s' : ApplicationSampler} {p : ℤ}

theorem map_shorts_of_keepsOwners (hown : s'.KeepsOwners dump pids) :
    (shorts s'.getRecords).map (fun r => (r.process, s'.shortRegionBuffer[r.signal]?)) =
      pids.flatMap fun q => (shorts (dump q).records).map fun r =>
        (r.process, (dump q).shortRegions[r.signal]?) := by
  have hmap : List.Forall₂ Eq
      ((shorts s'.getRecords).map fun r => (r.process, s'.shortRegionBuffer[r.signal]?))
      ((pids.flatMap fun q => (shorts (dump q).records).map fun r => (q, r)).map fun o =>
        (o.2.process, (dump o.1).shortRegions[o.2.signal]?)) := by
    rw [forall₂_map_left_iff, forall₂_map_right_iff]
    refine hown.resolves.imp fun r o hr => ?_
    obtain ⟨region, hregion, hget⟩ := hr.region
    rw [hregion, getShortRegion_eq_ok.mp hget, hr.same]
  rw [forall₂_eq_eq_eq] at hmap
  rw [hmap, map_flatMap]
  exact flatMap_congr fun q _ => by rw [map_map]; rfl

theorem plain_isBoundary : ApplicationSampler.Plain isBoundary :=
  ⟨fun r hr => by simp [isBoundary, hr], fun r hr => by simp [isBoundary, hr]⟩

theorem filter_boundary_of_delivered (hpids : pids.Nodup) (hd : DumpsOk pids dump)
    (h : s.Delivered dump pids s') :
    (s'.getRecords.filter fun r => r.process = p).filter isBoundary =
      if p ∈ pids then (dump p).records.filter isBoundary else [] := by
  have hkept : s'.getRecords.filter isBoundary = _ := h.kept _ plain_isBoundary
  rw [filter_comm, hkept, filter_flatMap_owner hpids fun q hq r hr =>
    hd.process q hq r (mem_filter.mp hr).1]

theorem filterMap_shorts_of_keepsOwners (hpids : pids.Nodup) (hd : DumpsOk pids dump)
    (hown : s'.KeepsOwners dump pids) :
    (shorts (s'.getRecords.filter fun r => r.process = p)).filterMap
        (fun r => s'.shortRegionBuffer[r.signal]?) =
      if p ∈ pids then (shorts (dump p).records).filterMap fun r =>
        (dump p).shortRegions[r.signal]? else [] := by
  have hpairs := congrArg (fun l => (l.filter fun x => x.1 = p).filterMap Prod.snd)
    (map_shorts_of_keepsOwners hown)
  rw [filter_flatMap_owner hpids fun q hq x hx => ?_, filter_map, filterMap_map] at hpairs
  · have hcomm : shorts (s'.getRecords.filter fun r => r.process = p) =
        (shorts s'.getRecords).filter fun r => r.process = p := filter_comm ..
    rw [hcomm]
    refine hpairs.trans ?_
    split_ifs
    · rw [filterMap_map]
      rfl
    · rfl
  · obtain ⟨r, hr, rfl⟩ := mem_map.mp hx
    exact hd.process q hq r (mem_shorts.mp hr).1

theorem told_alike (hpids : pids.Nodup) (hd : DumpsOk pids dump) (h : s.Delivered dump pids s')
    (hown : s'.KeepsOwners dump pids) (hp : p ∈ pids) :
    Alike (ofProcess p (told s' s'.getRecords)) ((dump p).readings s'.timeZero) := by
  refine ⟨?_, ?_⟩
  · rw [told, ofProcess_readings, bounds_readings, filter_boundary_of_delivered hpids hd h,
      if_pos hp, Dump.readings, bounds_readings]
  · rw [told, ofProcess_readings, shorts_readings, filterMap_shorts_of_keepsOwners hpids hd hown,
      if_pos hp, Dump.readings, shorts_readings]

theorem told_of_notMem (hpids : pids.Nodup) (hd : DumpsOk pids dump)
    (h : s.Delivered dump pids s') (hown : s'.KeepsOwners dump pids) (hp : p ∉ pids) :
    ofProcess p (told s' s'.getRecords) = [] := by
  rw [told, ofProcess_readings, readings]
  refine map_eq_nil_iff.mpr (filter_eq_nil_iff.mpr fun r hr hread => ?_)
  rcases Bool.or_eq_true_iff.mp hread with hboundary | hshort
  · have hmem := mem_filter.mpr ⟨hr, hboundary⟩
    rw [filter_boundary_of_delivered hpids hd h, if_neg hp] at hmem
    exact not_mem_nil hmem
  · have hpair := mem_map_of_mem (f := fun r : Record =>
      (r.process, s'.shortRegionBuffer[r.signal]?))
      (mem_shorts.mpr ⟨(mem_filter.mp hr).1, beq_iff_eq.mp hshort⟩)
    rw [map_shorts_of_keepsOwners hown] at hpair
    obtain ⟨q, hq, hpair⟩ := mem_flatMap.mp hpair
    obtain ⟨r₀, hr₀, heq⟩ := mem_map.mp hpair
    have hq' : q = r.process := by
      rw [← hd.process q hq r₀ (mem_shorts.mp hr₀).1]
      exact (Prod.mk.inj heq).1
    have hp' : r.process = p := of_decide_eq_true (mem_filter.mp hr).2
    exact hp (hp' ▸ hq' ▸ hq)

end Told

end ProcessRegionAggregator

/-! ### Runs of the controller -/

/-- What an update of the sampler finds. -/
structure SamplerUpdate where
  currTime : ℤ
  dump : ℤ → Dump
  status : ℕ → CpuStatus

/-- The sampler and the aggregator of the reporter; history variables: what each process has dumped
so far, and whether an update of the aggregator has raised an exception. -/
structure Reporting where
  sampler : ApplicationSampler
  aggregator : ProcessRegionAggregator
  told : ℤ → List ProcessRegionAggregator.Reading
  raised : Bool

namespace Reporting

open ProcessRegionAggregator
open ApplicationSampler (NoStops)

/-- The update of the reporter, after the sampler has become `s` by draining the logs. -/
def report (s : ApplicationSampler) (dump : ℤ → Dump) (r : Reporting) : Reporting where
  sampler := s
  aggregator := final (ProcessRegionAggregator.update s) r.aggregator
  told p := r.told p ++ (dump p).readings s.timeZero
  raised := r.raised || !returns (ProcessRegionAggregator.update s) r.aggregator

/-- The updates of the sampler that return, each followed by that of the reporter. -/
def reporting : Lts Reporting SamplerUpdate where
  step r u r' :=
    ∃ s, r.sampler.update u.currTime u.dump u.status = .ok () s ∧ r' = r.report s u.dump

/-- The start of `Controller::run`: the sampler is connected and updated, the aggregator is made,
and updated for the first time. -/
def Starts (s₀ : ApplicationSampler) (u : SamplerUpdate) (r : Reporting) : Prop :=
  ∃ s, s₀.update u.currTime u.dump u.status = .ok () s ∧
    r = report s u.dump ⟨s, .make s, fun _ => [], false⟩

/-- The dumps are those of the processes, and the indices of their short regions are `int`s. -/
structure UpdateOk (pids : List ℤ) (u : SamplerUpdate) : Prop where
  dumps : DumpsOk pids u.dump
  regions : (pids.flatMap fun p => (u.dump p).shortRegions).length ≤ 2 ^ 31

/-- What the aggregator knows is what the processes have told. -/
structure Known (r : Reporting) : Prop where
  raised : r.raised = false
  nodup : r.sampler.processPids.Nodup
  numProcess : r.aggregator.numProcess = r.sampler.processPids.length
  tracks : ∃ xs : ℤ → List Reading, r.aggregator.Tracks xs ∧
    (∀ p ∈ r.sampler.processPids, Alike (xs p) (r.told p) ∧
      ∃ out, ({} : ValidateRecord).run out = some (r.sampler.processes p).valid ∧
        (bounds (xs p)).map Prod.fst = out.filter isBoundary) ∧
    ∀ p ∉ r.sampler.processPids, xs p = []

variable {u : SamplerUpdate}

section Known

variable {s₀ s : ApplicationSampler} {a : ProcessRegionAggregator} {xs : ℤ → List Reading}
  {r r' : Reporting}

/-- The update of the reporter adds up what the sampler has drained. -/
theorem known_report (hpids : s₀.processPids.Nodup) (hu : UpdateOk s₀.processPids u)
    (hupdate : s₀.update u.currTime u.dump u.status = .ok () s) (hraised : r.raised = false)
    (hnum : r.aggregator.numProcess = s₀.processPids.length) (ha : r.aggregator.Tracks xs)
    (hxs : ∀ p ∈ s₀.processPids, Alike (xs p) (r.told p) ∧
      ∃ out, ({} : ValidateRecord).run out = some (s₀.processes p).valid ∧
        (bounds (xs p)).map Prod.fst = out.filter isBoundary)
    (hnone : ∀ p ∉ s₀.processPids, xs p = []) : Known (r.report s u.dump) := by
  obtain ⟨hdelivered, -⟩ := update_delivers hpids hupdate
  have hown : s.KeepsOwners u.dump s₀.processPids := by
    have hspec : wp (ApplicationSampler.update u.currTime u.dump u.status) _ _ s₀ :=
      wp_update hu.dumps.points
    unfold wp at hspec
    rwa [hupdate] at hspec
  let new := readings s.timeZero s.shortRegionBuffer s.getRecords
  have hrest : ∀ p ∉ s₀.processPids, xs p ++ ofProcess p new = [] := by
    intro p hp
    rw [hnone p hp, told_of_notMem hpids hu.dumps hdelivered hown hp, append_nil]
  have hstreams : ∀ p ∈ s₀.processPids,
      Alike (xs p ++ ofProcess p new) ((r.report s u.dump).told p) ∧
      ∃ out, ({} : ValidateRecord).run out = some (s.processes p).valid ∧
        (bounds (xs p ++ ofProcess p new)).map Prod.fst =
          out.filter isBoundary := by
    intro p hp
    obtain ⟨halike, out, hout, hbounds⟩ := hxs p hp
    obtain ⟨o, hrun, hkept⟩ := hdelivered.passed p hp
    have hnew := told_alike hpids hu.dumps hdelivered hown hp
    refine ⟨halike.append hnew, out ++ o, ?_, ?_⟩
    · exact ValidateRecord.run_append_eq_some.mpr ⟨_, hout, hrun⟩
    · rw [bounds_append, map_append, hbounds, hnew.bounds, Dump.readings, bounds_readings,
        map_map, filter_append, hkept _ plain_isBoundary.1]
      exact congrArg (out.filter isBoundary ++ ·) (map_id _)
  have hmatched : ∀ p, Matched (xs p ++ ofProcess p new) := by
    intro p
    by_cases hp : p ∈ s₀.processPids
    · obtain ⟨-, out, hout, hbounds⟩ := hstreams p hp
      exact matched_of_run hout hbounds
    · rw [hrest p hp]
      exact fun pre x post h => absurd h.symm (append_ne_nil_of_right_ne_nil _ nofun)
  have hshort : ∀ rec ∈ s.getRecords, rec.event = .shortRegion →
      rec.signal < s.shortRegionBuffer.length ∧ rec.signal < 2 ^ 31 := by
    intro rec hrec hevent
    have hlt := hown.signal_lt (mem_shorts.mpr ⟨hrec, hevent⟩)
    refine ⟨hlt, hlt.trans_le ?_⟩
    rw [hdelivered.regions]
    exact hu.regions
  obtain ⟨_, a', hok, htracks, hnum'⟩ := exists_ok_of_wp (update_tracks ha hmatched hshort)
  have hfinal : (r.report s u.dump).aggregator = a' := by
    change final _ _ = a'
    rw [final, hok]
  have hpids' : (r.report s u.dump).sampler.processPids = s₀.processPids := hdelivered.processPids
  refine ⟨?_, ?_, ?_, ?_⟩
  · change (r.raised || !returns _ _) = false
    rw [hraised, returns, hok]
    rfl
  · rw [hpids']
    exact hpids
  · rw [hfinal, hpids', hnum', hnum]
  · rw [hfinal, hpids']
    exact ⟨_, htracks, hstreams, hrest⟩

theorem Known.step (hr : Known r) (hu : UpdateOk r.sampler.processPids u)
    (hst : reporting.step r u r') : Known r' := by
  obtain ⟨s, hupdate, rfl⟩ := hst
  obtain ⟨xs, ha, hxs, hnone⟩ := hr.tracks
  exact known_report hr.nodup hu hupdate hr.raised hr.numProcess ha hxs hnone

theorem known_of_starts {numCpu : ℕ} {filter : Option RecordFilter} {pids : List ℤ}
    {status : ℕ → CpuStatus} {timeZero : ℤ}
    (hstart : Starts (.connect numCpu filter pids status timeZero) u r)
    (hu : UpdateOk pids.dedup.mergeSort u) (hstops : NoStops u.dump pids.dedup.mergeSort) :
    Known r := by
  obtain ⟨s, hupdate, rfl⟩ := hstart
  have hpids : pids.dedup.mergeSort.Nodup := nodup_sortedPids
  obtain ⟨-, hclients⟩ := update_delivers hpids hupdate
  have hmake : (ProcessRegionAggregator.make s).Tracks fun _ => [] := tracks_make
  refine known_report hpids hu hupdate rfl ?_ hmake (fun p _ => ?_) fun _ _ => rfl
  · exact congrArg List.length (hclients hstops)
  · exact ⟨⟨rfl, rfl⟩, [], rfl, rfl⟩

theorem processPids_of_step (hr : Known r) (hst : reporting.step r u r') :
    r'.sampler.processPids = r.sampler.processPids := by
  obtain ⟨s, hupdate, rfl⟩ := hst
  exact (update_delivers hr.nodup hupdate).1.processPids

theorem processPids_of_starts {numCpu : ℕ} {filter : Option RecordFilter} {pids : List ℤ}
    {status : ℕ → CpuStatus} {timeZero : ℤ}
    (hstart : Starts (.connect numCpu filter pids status timeZero) u r) :
    r.sampler.processPids = pids.dedup.mergeSort := by
  obtain ⟨s, hupdate, rfl⟩ := hstart
  exact (update_delivers nodup_sortedPids
    hupdate).1.processPids

end Known

/-- **The averages are exact**: times the number of processes they are the time that all processes
have spent in `h`, and their visits to it. -/
def Exact (r : Reporting) (h : ℕ) : Prop :=
  r.aggregator.getRuntimeAverage h * r.sampler.processPids.length =
      ((r.sampler.processPids.map fun p => exactTime h (r.told p)).sum : ℤ) ∧
    r.aggregator.getCountAverage h * r.sampler.processPids.length =
      ((r.sampler.processPids.map fun p => exactCount h (r.told p)).sum : ℕ)

/-- What the time zero has moved during the visits to `h` cancels out, and the visits of each
process are an `int`. -/
def Settled (r : Reporting) (h : ℕ) : Prop :=
  (r.sampler.processPids.map fun p => moved h (r.told p)).sum = 0 ∧
    ∀ p ∈ r.sampler.processPids, exactCount h (r.told p) < 2 ^ 31

section Exact

variable {r : Reporting} {h : ℕ}

instance : Decidable (r.Exact h) := inferInstanceAs (Decidable (_ ∧ _))

instance : Decidable (r.Settled h) := inferInstanceAs (Decidable (_ ∧ _))

theorem Known.exact_iff (hr : Known r) : r.Exact h ↔ r.Settled h := by
  obtain ⟨xs, ha, hxs, hnone⟩ := hr.tracks
  have htime : r.sampler.processPids.map (fun p => exactTime h (r.told p)) =
      r.sampler.processPids.map fun p => exactTime h (xs p) :=
    map_congr_left fun p hp => ((hxs p hp).1.exactTime h).symm
  have hcount : r.sampler.processPids.map (fun p => exactCount h (r.told p)) =
      r.sampler.processPids.map fun p => exactCount h (xs p) :=
    map_congr_left fun p hp => ((hxs p hp).1.exactCount h).symm
  have hmoved : r.sampler.processPids.map (fun p => moved h (r.told p)) =
      r.sampler.processPids.map fun p => moved h (xs p) :=
    map_congr_left fun p hp => ((hxs p hp).1.moved h).symm
  have hint : (∀ p ∈ r.sampler.processPids, exactCount h (r.told p) < 2 ^ 31) ↔
      ∀ p ∈ r.sampler.processPids, exactCount h (xs p) < 2 ^ 31 :=
    forall₂_congr fun p hp => by rw [(hxs p hp).1.exactCount]
  unfold Exact Settled
  rw [htime, hcount, hmoved, hint, getRuntimeAverage_mul_eq_iff ha hr.nodup hnone hr.numProcess,
    getCountAverage_mul_eq_iff ha hr.nodup hnone hr.numProcess]

end Exact

/-- No update of the aggregator raises an exception, and the averages are exact when, and only
when, the moves of the time zero during the visits cancel out and the counts are `int`s. -/
theorem exact_iff_of_reachable {numCpu : ℕ} {filter : Option RecordFilter} {pids : List ℤ}
    {status : ℕ → CpuStatus} {timeZero : ℤ} {u : SamplerUpdate} {r₀ r : Reporting}
    (hstart : Starts (.connect numCpu filter pids status timeZero) u r₀)
    (hu : UpdateOk pids.dedup.mergeSort u) (hstops : NoStops u.dump pids.dedup.mergeSort)
    (hrun : reporting.ReachableIf (fun r u => UpdateOk r.sampler.processPids u) r₀ r) :
    r.raised = false ∧ r.sampler.processPids = pids.dedup.mergeSort ∧
      ∀ h, r.Exact h ↔ r.Settled h := by
  have hknown : Known r ∧ r.sampler.processPids = pids.dedup.mergeSort := by
    refine hrun.invariant
      (I := fun r => Known r ∧ r.sampler.processPids = pids.dedup.mergeSort)
      ⟨known_of_starts hstart hu hstops, processPids_of_starts hstart⟩ ?_
    rintro r u r' ⟨hr, hpids⟩ hu hst
    exact ⟨hr.step hu hst, (processPids_of_step hr hst).trans hpids⟩
  exact ⟨hknown.1.raised, hknown.2, fun h => hknown.1.exact_iff⟩

/-- The update of the sampler in which the processes 11 and 22 have logged these records. -/
def twoLogs (first second : List Record) : SamplerUpdate where
  currTime := 0
  dump p := if p = 11 then { records := first } else if p = 22 then { records := second } else {}
  status := fun _ => {}

/-- The reporter after an update that returns. -/
def next (r : Reporting) (u : SamplerUpdate) : Reporting :=
  report (final (ApplicationSampler.update u.currTime u.dump u.status) r.sampler) u.dump r

/-- The sampler that is connected to the processes 11 and 22. -/
def connected : ApplicationSampler where
  numCpu := 0
  statusCache := fun _ => {}
  processPids := [11, 22]
  processes := fun _ => {}
  clientPids := [11, 22]
  numClient := 2
  timeZero := 0

/-- The reporter after the first update. -/
def first (u : SamplerUpdate) : Reporting :=
  let s := final (ApplicationSampler.update u.currTime u.dump u.status) connected
  report s u.dump ⟨s, .make s, fun _ => [], false⟩

section Runs

variable {r : Reporting} {rs ss : List Record}

theorem sortedPids_two : [11, 22].dedup.mergeSort = ([11, 22] : List ℤ) :=
  mergeSort_of_pairwise (by decide)

theorem connect_two : connect 0 none [11, 22] (fun _ => {}) 0 = connected := by
  unfold connect
  rw [sortedPids_two]
  rfl

theorem starts_first (hu : returns (ApplicationSampler.update u.currTime u.dump u.status)
    connected = true) : Starts (.connect 0 none [11, 22] (fun _ => {}) 0) u (first u) := by
  rw [connect_two]
  exact ⟨_, eq_ok_of_returns hu, rfl⟩

theorem step_next (hu : returns (ApplicationSampler.update u.currTime u.dump u.status)
    r.sampler = true) : reporting.step r u (r.next u) :=
  ⟨_, eq_ok_of_returns hu, rfl⟩

/-- Logs without short regions, each with the records of its own process. -/
theorem updateOk_twoLogs (hrs : ∀ r ∈ rs, r.process = 11 ∧ r.event ≠ .shortRegion)
    (hss : ∀ r ∈ ss, r.process = 22 ∧ r.event ≠ .shortRegion) : UpdateOk pids (twoLogs rs ss) := by
  have hlog : ∀ p, ((twoLogs rs ss).dump p).shortRegions = [] ∧
      ∀ r ∈ ((twoLogs rs ss).dump p).records, r.process = p ∧ r.event ≠ .shortRegion := by
    intro p
    unfold twoLogs
    dsimp only
    split_ifs with hfirst hsecond
    · exact ⟨rfl, fun r hr => hfirst ▸ hrs r hr⟩
    · exact ⟨rfl, fun r hr => hsecond ▸ hss r hr⟩
    · exact ⟨rfl, nofun⟩
  refine ⟨⟨fun p _ r hr => ((hlog p).2 r hr).1, fun p _ => ?_⟩, ?_⟩
  · have hsignals : shortSignals ((twoLogs rs ss).dump p).records = [] :=
      filterMap_eq_nil_iff.mpr fun r hr => if_neg ((hlog p).2 r hr).2
    refine ⟨fun r hr hevent => absurd hevent ((hlog p).2 r hr).2, ?_, ?_⟩
    · rw [hsignals]
      exact nodup_nil
    · rw [hsignals, (hlog p).1]
      rfl
  · simp [hlog]

theorem starts_inRegion :
    let u := twoLogs [⟨100, 11, .startProfile, 0⟩, ⟨110, 11, .regionEntry, 5⟩] []
    Starts (.connect 0 none [11, 22] (fun _ => {}) 0) u (first u) ∧
      UpdateOk [11, 22].dedup.mergeSort u ∧ NoStops u.dump [11, 22].dedup.mergeSort := by
  refine ⟨starts_first (by decide +kernel), updateOk_twoLogs (by decide) (by decide), ?_⟩
  rw [sortedPids_two]
  unfold NoStops
  decide

end Runs

/-- The process 11 is in the region 5 from the time 110 to the time 130.  When it leaves, the
record arrives that the process 22 has started at the time 90. -/
theorem lateStart_not_exact : ¬ ∀ (numCpu : ℕ) (filter : Option RecordFilter) (pids : List ℤ)
    (status : ℕ → CpuStatus) (timeZero : ℤ) (u : SamplerUpdate) (r₀ r : Reporting),
    Starts (.connect numCpu filter pids status timeZero) u r₀ →
    UpdateOk pids.dedup.mergeSort u → NoStops u.dump pids.dedup.mergeSort →
    reporting.ReachableIf (fun r u => UpdateOk r.sampler.processPids u) r₀ r →
      r.raised = false ∧ ∀ h, r.Exact h := by
  intro hexact
  let u := twoLogs [⟨100, 11, .startProfile, 0⟩, ⟨110, 11, .regionEntry, 5⟩] []
  let v := twoLogs [⟨130, 11, .regionExit, 5⟩] [⟨90, 22, .startProfile, 0⟩]
  obtain ⟨hstart, hu, hstops⟩ := starts_inRegion
  have hrun : reporting.ReachableIf (fun r u => UpdateOk r.sampler.processPids u) (first u)
      ((first u).next v) :=
    (Lts.ReachableIf.refl _).tail (updateOk_twoLogs (by decide) (by decide))
      (step_next (by decide +kernel))
  have h := (hexact 0 none [11, 22] (fun _ => {}) 0 u _ _ hstart hu hstops hrun).2 5
  exact absurd h (by decide +kernel)

/-- The same, but the process 22 has started at the time 120. -/
theorem exact_laterStart :
    let u := twoLogs [⟨100, 11, .startProfile, 0⟩, ⟨110, 11, .regionEntry, 5⟩] []
    let v := twoLogs [⟨130, 11, .regionExit, 5⟩] [⟨120, 22, .startProfile, 0⟩]
    ((first u).next v).raised = false ∧ ((first u).next v).Exact 5 := by
  intro u v
  obtain ⟨hstart, hu, hstops⟩ := starts_inRegion
  have hrun : reporting.ReachableIf (fun r u => UpdateOk r.sampler.processPids u) (first u)
      ((first u).next v) :=
    (Lts.ReachableIf.refl _).tail (updateOk_twoLogs (by decide) (by decide))
      (step_next (by decide +kernel))
  have h := exact_iff_of_reachable hstart hu hstops hrun
  exact ⟨h.1, (h.2.2 5).mpr (by decide +kernel)⟩

end Reporting

end Geopm
