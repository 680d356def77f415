import Geopm.App.SamplerSteps
import Geopm.App.ValidDumps

/-!
# Short regions and the process they belong to

* `getRecords`, `getShortRegion` : what the sampler tells about its last update;
* `Resolves` : a record of the buffer points at the short region that its own dump has for it;
* `shorts_reindex` : the offset is applied to every short region record of a dump, and to no other;
* `update_keepsOwners` : after an update every short region record points at the short region that
  its own process has dumped for it, and no two at the same.
-/

namespace Geopm

open Prog
open List hiding modify

namespace ApplicationSampler

def getRecords (s : ApplicationSampler) : List Record := s.recordBuffer

def getShortRegion (s : ApplicationSampler) (eventSignal : ℕ) : Except Exception ShortRegion :=
  if h : eventSignal < s.shortRegionBuffer.length then .ok s.shortRegionBuffer[eventSignal]
  else .error ⟨"ApplicationSampler::get_short_region(), event_signal does not match any short " ++
    "region handle", [], .invalid⟩

/-- The short region records. -/
def shorts (rs : List Record) : List Record := rs.filter fun r => r.event == .shortRegion

/-- `r` is the record `r₀` of the dump `d`, and points at the short region that `d` has for `r₀`. -/
structure Resolves (s : ApplicationSampler) (d : Dump) (r r₀ : Record) : Prop where
  same : r = { r₀ with signal := r.signal }
  region : ∃ region, d.shortRegions[r₀.signal]? = some region ∧
    s.getShortRegion r.signal = .ok region

/-- The short region records of the buffer are those of the processes `pids`, one after the other,
each of them points at the short region of its own process, and no two at the same one. -/
structure KeepsOwners (s : ApplicationSampler) (dump : ℤ → Dump) (pids : List ℤ) : Prop where
  resolves : List.Forall₂ (fun r (owned : ℤ × Record) => s.Resolves (dump owned.1) r owned.2)
    (shorts s.getRecords)
    (pids.flatMap fun pid => (shorts (dump pid).records).map fun r => (pid, r))
  distinct : ((shorts s.getRecords).map Record.signal).Nodup

section Shorts

variable {s s' : ApplicationSampler} {d : Dump} {r r₀ : Record} {rs ss : List Record}

@[simp] theorem shorts_append (rs ss : List Record) : shorts (rs ++ ss) = shorts rs ++ shorts ss :=
  filter_append ..

theorem shorts_cons_of_short (hr : r.event = .shortRegion) : shorts (r :: rs) = r :: shorts rs :=
  filter_cons_of_pos (beq_iff_eq.mpr hr)

theorem shorts_cons_of_ne (hr : r.event ≠ .shortRegion) : shorts (r :: rs) = shorts rs :=
  filter_cons_of_neg fun h => hr (beq_iff_eq.mp h)

theorem mem_shorts : r ∈ shorts rs ↔ r ∈ rs ∧ r.event = .shortRegion := by
  rw [shorts, mem_filter, beq_iff_eq]

theorem shortSignals_eq (rs : List Record) : shortSignals rs = (shorts rs).map Record.signal := by
  induction rs with
  | nil => rfl
  | cons r rs ih =>
    rw [shortSignals, filterMap_cons]
    split_ifs with hr
    · rw [shorts_cons_of_short hr, map_cons, ← ih]
      rfl
    · rw [shorts_cons_of_ne hr, ← ih]
      rfl

/-- The short region record of another process, in the buffer. -/
def shift (offset : ℕ) (r : Record) : Record := { r with signal := r.signal + offset }

/-- There are enough steps of the loop for every short region record. -/
theorem shorts_reindex (offset : ℕ) {remain : ℕ} (h : (shorts rs).length ≤ remain) :
    shorts (reindex offset remain rs) = (shorts rs).map (shift offset) := by
  induction rs generalizing remain with
  | nil => cases remain <;> rfl
  | cons r rs ih =>
    by_cases hr : r.event = .shortRegion
    · rw [shorts_cons_of_short hr, length_cons] at h
      cases remain with
      | zero => cases h
      | succ remain =>
        rw [reindex, if_pos hr, shorts_cons_of_short hr, map_cons,
          ← ih (Nat.le_of_succ_le_succ h)]
        exact shorts_cons_of_short hr
    · rw [shorts_cons_of_ne hr] at h ⊢
      cases remain with
      | zero =>
        rw [Nat.le_zero, length_eq_zero_iff] at h
        rw [reindex, shorts_cons_of_ne hr, h]
        rfl
      | succ remain => rw [reindex, if_neg hr, shorts_cons_of_ne hr, ih h]

theorem getShortRegion_eq_ok {n : ℕ} {region : ShortRegion} :
    s.getShortRegion n = .ok region ↔ s.shortRegionBuffer[n]? = some region := by
  unfold getShortRegion
  rw [List.getElem?_eq_some_iff]
  split_ifs with h
  · rw [Except.ok.injEq]
    exact ⟨fun heq => ⟨h, heq⟩, fun ⟨_, heq⟩ => heq⟩
  · exact ⟨nofun, fun ⟨hlt, _⟩ => absurd hlt h⟩

theorem Resolves.mono (h : s.Resolves d r r₀)
    (hbuffer : ∃ regions, s'.shortRegionBuffer = s.shortRegionBuffer ++ regions) :
    s'.Resolves d r r₀ := by
  obtain ⟨regions, hbuffer⟩ := hbuffer
  obtain ⟨region, hregion, hget⟩ := h.region
  refine ⟨h.same, region, hregion, ?_⟩
  rw [getShortRegion_eq_ok] at hget ⊢
  obtain ⟨hlt, -⟩ := List.getElem?_eq_some_iff.mp hget
  rw [hbuffer, getElem?_append_left hlt, hget]

theorem Resolves.signal_lt (h : s.Resolves d r r₀) : r.signal < s.shortRegionBuffer.length := by
  obtain ⟨region, -, hget⟩ := h.region
  exact (List.getElem?_eq_some_iff.mp (getShortRegion_eq_ok.mp hget)).1

end Shorts

/-! ### Draining -/

section Drain

variable {s s' : ApplicationSampler} {pid : ℤ} {r : Record} {records o : List Record}
  {dump : ℤ → Dump} {pre : List ℤ}

/-- A choice of records that leaves out the epoch records. -/
def NoEpochs (q : Record → Bool) : Prop := ∀ r : Record, r.event = .epochCount → q r = false

/-- A filter passes on what is not an epoch record, and adds epoch records only. -/
theorem filter_kept (r : Record) (f : RecordFilter) :
    wp (RecordFilter.filter r) (fun o _ => ∀ q, NoEpochs q → o.filter q = [r].filter q)
      (fun _ _ => True) f := by
  have hepoch : r.event = .epochCount → ∀ q, NoEpochs q → [].filter q = [r].filter q :=
    fun h q hq => (filter_cons_of_neg (by rw [hq r h]; exact Bool.false_ne_true)).symm
  have hafter : ∀ n q, NoEpochs q → [r, r.epochAfter n].filter q = [r].filter q := fun n q hq => by
    have hnone : [r.epochAfter n].filter q = [] :=
      filter_cons_of_neg (by rw [hq _ rfl]; exact Bool.false_ne_true)
    change ([r] ++ [r.epochAfter n]).filter q = _
    rw [filter_append, hnone, append_nil]
  cases f with
  | proxyEpoch f =>
    rw [RecordFilter.wp_filter_proxyEpoch]
    unfold ProxyEpochRecordFilter.filter
    simp only [wp_bind, wp_get, wp_ite, wp_set, wp_pure]
    exact ⟨hepoch, fun _ => ⟨fun _ => ⟨fun _ => hafter _, fun _ _ _ => trivial⟩,
      fun _ _ _ => trivial⟩⟩
  | editDistance f =>
    rw [RecordFilter.wp_filter_editDistance]
    unfold EditDistEpochRecordFilter.filter
    rw [wp_ite, wp_pure, wp_ite, wp_pure, wp_bind]
    refine ⟨hepoch, fun _ => ⟨fun _ => ?_, fun _ _ _ => rfl⟩⟩
    refine wp_mono (wp_const.mpr trivial) (fun _ _ _ => ?_) fun _ _ _ => trivial
    rw [wp_bind]
    refine wp_mono (wp_const.mpr trivial) (fun _ _ _ => ?_) fun _ _ _ => trivial
    simp only [wp_bind, wp_get, wp_ite, wp_modify, wp_pure]
    exact ⟨fun _ => hafter _, fun _ _ _ => trivial⟩

theorem filter_shorts (r : Record) (f : RecordFilter) :
    wp (RecordFilter.filter r) (fun o _ => shorts o = shorts [r]) (fun _ _ => True) f :=
  wp_mono_ok (filter_kept r f) fun _ _ h => h _ fun r hr => by rw [hr]; rfl

theorem filterRecord_shorts (s : ApplicationSampler) :
    wp (filterRecord pid r)
      (fun o s' => shorts o = shorts [r] ∧ s'.recordBuffer = s.recordBuffer ∧
        s'.shortRegionBuffer = s.shortRegionBuffer)
      (fun _ _ => True) s := by
  unfold filterRecord
  rw [wp_bind, wp_get]
  cases hf : (s.processes pid).filter with
  | none =>
    dsimp only
    rw [wp_pure]
    exact ⟨rfl, rfl, rfl⟩
  | some f =>
    dsimp only
    rw [wp_zoom]
    exact wp_mono_ok (filter_shorts r f) fun _ _ h => ⟨h, rfl, rfl⟩

/-- The buffers after records have been pushed. -/
def Pushed (s : ApplicationSampler) (o : List Record) (s' : ApplicationSampler) : Prop :=
  s'.recordBuffer = s.recordBuffer ++ o ∧ s'.shortRegionBuffer = s.shortRegionBuffer

theorem onValid_keeps :
    Keeps (fun s : ApplicationSampler => (s.recordBuffer, s.shortRegionBuffer))
      (onValid pid r) := by
  intro s
  unfold onValid
  rw [wp_zoom]
  exact wp_mono (wp_const.mpr trivial) (fun _ _ _ => rfl) fun _ _ _ => rfl

theorem forM_pushRecord_pushed (s : ApplicationSampler) :
    wp (o.forM (pushRecord pid)) (fun _ s' => s.Pushed o s') (fun _ _ => True) s := by
  refine wp_forM_done (I := fun pre s' => s.Pushed pre s') ⟨(append_nil _).symm, rfl⟩ ?_
  rintro pre r post - s' ⟨hrecords, hregions⟩
  unfold pushRecord
  rw [wp_bind]
  refine wp_mono (onValid_keeps s') (fun _ t ht => ?_) fun _ _ _ => trivial
  obtain ⟨ht, ht'⟩ := Prod.mk.inj ht
  rw [wp_modify]
  exact ⟨by rw [ht, hrecords, append_assoc], ht'.trans hregions⟩

/-- The records of a process are pushed, and its short region records are among them. -/
theorem pushRecords_pushed (s : ApplicationSampler) :
    wp (pushRecords pid records)
      (fun _ s' => ∃ o, shorts o = shorts records ∧ s.Pushed o s') (fun _ _ => True) s := by
  unfold pushRecords
  rw [wp_bind, wp_get, wp_ite]
  refine ⟨fun _ => ?_, fun _ => ?_⟩
  · refine wp_forM_done (I := fun pre s' => ∃ o, shorts o = shorts pre ∧ s.Pushed o s')
      ⟨[], rfl, (append_nil _).symm, rfl⟩ ?_
    rintro pre r post - s' ⟨o, ho, hrecords, hregions⟩
    rw [wp_bind]
    refine wp_mono (filterRecord_shorts s') ?_ fun _ _ h => h
    rintro o' t ⟨ho', ht, ht'⟩
    refine wp_mono (forM_pushRecord_pushed t) ?_ fun _ _ h => h
    rintro - u ⟨hu, hu'⟩
    refine ⟨o ++ o', by rw [shorts_append, shorts_append, ho, ho'], ?_, ?_⟩
    · rw [hu, ht, hrecords, append_assoc]
    · rw [hu', ht', hregions]
  · rw [wp_bind]
    refine wp_mono (Keeps.forM (fun _ => onValid_keeps) s) (fun _ t ht => ?_) fun _ _ _ => trivial
    obtain ⟨ht, ht'⟩ := Prod.mk.inj ht
    rw [wp_modify]
    exact ⟨records, rfl, by rw [ht], ht'⟩

theorem KeepsOwners.signal_lt (h : s.KeepsOwners dump pre) (hr : r ∈ shorts s.getRecords) :
    r.signal < s.shortRegionBuffer.length := by
  obtain ⟨hlength, hresolves⟩ := forall₂_iff_get.mp h.resolves
  obtain ⟨i, hi, rfl⟩ := mem_iff_getElem.mp hr
  exact (hresolves i hi (hlength ▸ hi)).signal_lt

theorem KeepsOwners.drain (h : s.KeepsOwners dump pre)
    (hpoints : PointsAt (dump pid).records (dump pid).shortRegions)
    (hshorts : shorts o = shorts (dump pid).records)
    (hrecords : s'.recordBuffer = s.recordBuffer ++
      reindex s.shortRegionBuffer.length (dump pid).shortRegions.length o)
    (hregions : s'.shortRegionBuffer = s.shortRegionBuffer ++ (dump pid).shortRegions) :
    s'.KeepsOwners dump (pre ++ [pid]) := by
  obtain ⟨hbelow, hnodup, hcount⟩ := hpoints
  rw [shortSignals_eq] at hnodup hcount
  rw [length_map] at hcount
  have hbuffer : shorts s'.getRecords = shorts s.getRecords ++
      (shorts (dump pid).records).map (shift s.shortRegionBuffer.length) := by
    rw [getRecords, hrecords, shorts_append, shorts_reindex, hshorts]
    · rfl
    · rw [hshorts, hcount]
  refine ⟨?_, ?_⟩
  · rw [hbuffer, flatMap_append, flatMap_singleton]
    refine rel_append (h.resolves.imp fun _ _ hr => hr.mono ⟨_, hregions⟩) ?_
    rw [forall₂_map_left_iff, forall₂_map_right_iff, forall₂_same]
    intro r hr
    obtain ⟨hmem, hevent⟩ := mem_shorts.mp hr
    have hregion := getElem?_eq_getElem (hbelow r hmem hevent)
    refine ⟨rfl, _, hregion, ?_⟩
    change s'.getShortRegion (r.signal + s.shortRegionBuffer.length) = _
    rw [getShortRegion_eq_ok, hregions, Nat.add_comm,
      getElem?_append_right (Nat.le_add_right _ _), Nat.add_sub_cancel_left]
    exact hregion
  · have hsignals : ((shorts (dump pid).records).map (shift s.shortRegionBuffer.length)).map
        Record.signal = ((shorts (dump pid).records).map Record.signal).map
          (· + s.shortRegionBuffer.length) := by
      rw [map_map, map_map]
      rfl
    rw [hbuffer, map_append, hsignals, nodup_append]
    refine ⟨h.distinct, hnodup.map fun a b hab => Nat.add_right_cancel hab, ?_⟩
    intro a ha b hb
    obtain ⟨r, hr, rfl⟩ := mem_map.mp ha
    obtain ⟨n, -, rfl⟩ := mem_map.mp hb
    have hlt := h.signal_lt hr
    omega

theorem drainAll_keepsOwners {pids : List ℤ}
    (hpoints : ∀ pid ∈ pids, PointsAt (dump pid).records (dump pid).shortRegions)
    (hempty : s.recordBuffer = []) :
    wp (pids.forM (drainProcess dump)) (fun _ s' => KeepsOwners s' dump pids) (fun _ _ => True)
      s := by
  have hnil : shorts s.getRecords = [] := by rw [getRecords, hempty]; rfl
  refine wp_forM_done (I := fun pre s' => KeepsOwners s' dump pre)
    ⟨by rw [hnil]; exact .nil, by rw [hnil]; exact .nil⟩ ?_
  rintro pre pid post rfl s' hs'
  unfold drainProcess
  rw [wp_bind, wp_get, wp_bind]
  refine wp_mono (pushRecords_pushed s') ?_ fun _ _ h => h
  rintro - t ⟨o, ho, ht, ht'⟩
  rw [wp_modify]
  refine hs'.drain (hpoints pid (by simp)) ho ?_ ?_
  · rw [pushShortRegions, ht, ht', take_left, drop_left]
  · rw [pushShortRegions, ht']

end Drain

/-! ### The rest of an update -/

section Rest

variable {s : ApplicationSampler} {dump : ℤ → Dump} {status : ℕ → CpuStatus} {currTime : ℤ}

/-- What draining the logs has left. -/
abbrev logs (s : ApplicationSampler) :
    List Record × List ShortRegion × (ℤ → Process) × List ℤ :=
  (s.recordBuffer, s.shortRegionBuffer, s.processes, s.processPids)

/-- The program leaves the buffers and the processes as they are. -/
abbrev KeepsLogs {α : Type} (m : Method α) : Prop := Keeps logs m

/-- The program leaves the buffers, the processes and the clients as they are. -/
abbrev KeepsClients {α : Type} (m : Method α) : Prop :=
  Keeps (fun s : ApplicationSampler => (logs s, s.clientPids)) m

theorem startRecord_clients (r : Record) :
    (logs (s.startRecord r), (s.startRecord r).clientPids) = (logs s, s.clientPids) := by
  unfold startRecord
  cases r.event <;> rfl

theorem foldl_startRecord_clients (rs : List Record) (s : ApplicationSampler) :
    (logs (rs.foldl startRecord s), (rs.foldl startRecord s).clientPids) =
      (logs s, s.clientPids) := by
  induction rs generalizing s with
  | nil => rfl
  | cons r rs ih =>
    rw [foldl_cons, ih, startRecord_clients]

theorem getHint_keeps (cpuIdx : ℕ) : KeepsClients (getHint cpuIdx) := by
  unfold getHint checkHint
  refine .bind .get fun s => .ite (.bind (.throw _) fun _ => ?_) ?_
  · exact .bind (.ite (.throw _) (.pure _)) fun _ => .pure _
  · exact .bind (.ite (.throw _) (.pure _)) fun _ => .pure _

theorem updateHintLast_keeps (cpuIdx : ℕ) : KeepsClients (updateHintLast cpuIdx) := by
  unfold updateHintLast cpuHint
  exact .bind (.bind .get fun s => .ite (getHint_keeps cpuIdx) (.pure _)) fun _ =>
    .modify fun _ => rfl

theorem updateHints_keeps : KeepsClients (updateHints currTime status) := by
  unfold updateHints
  refine .bind (.modify fun _ => rfl) fun _ => .bind .get fun s => .ite ?_ ?_
  · exact .forM updateHintLast_keeps
  · exact .forM fun cpuIdx => .bind (.modify fun _ => rfl) fun _ => updateHintLast_keeps cpuIdx

theorem updateStart_keeps : KeepsClients updateStart := by
  unfold updateStart
  refine .bind (.modify fun s => ?_) fun _ => .bind .get fun s => .ite ?_ (.pure _)
  · exact foldl_startRecord_clients s.recordBuffer s
  · unfold updateCpuActive
    exact .bind (.modify fun _ => rfl) fun _ => .bind .get fun s => .forM updateHintLast_keeps

theorem stopRecord_keeps (r : Record) : KeepsLogs (stopRecord r) := by
  intro s
  unfold stopRecord
  simp only [wp_bind, wp_ite, wp_modify, wp_get, wp_throw, wp_set, wp_pure]
  exact ⟨fun _ => ⟨fun _ => trivial, fun _ => trivial⟩, fun _ => trivial⟩

theorem updateStop_keeps : KeepsLogs updateStop := by
  intro s
  unfold updateStop
  rw [wp_bind, wp_get, wp_bind]
  refine wp_mono_ok (Keeps.forM stopRecord_keeps s) fun _ s' hs' => ?_
  simp only [wp_bind, wp_ite, wp_get, wp_throw, wp_set, wp_pure]
  exact ⟨fun _ => hs', fun _ => ⟨fun _ => hs', fun _ => hs'⟩⟩

/-- What holds of the buffers once the logs are drained holds after the update. -/
theorem KeepsOwners.of_buffers {s' : ApplicationSampler} {pids : List ℤ}
    (h : s.KeepsOwners dump pids)
    (hs' : logs s' = logs s) : s'.KeepsOwners dump pids := by
  obtain ⟨hrecords, hrest⟩ := Prod.mk.inj hs'
  have hregions := (Prod.mk.inj hrest).1
  have hget : s'.getRecords = s.getRecords := hrecords
  refine ⟨?_, by rw [hget]; exact h.distinct⟩
  rw [hget]
  exact h.resolves.imp fun _ _ hr => hr.mono ⟨[], by rw [hregions, append_nil]⟩

theorem wp_update (hpoints : ∀ pid ∈ s.processPids,
    PointsAt (dump pid).records (dump pid).shortRegions) :
    wp (update currTime dump status) (fun _ s' => KeepsOwners s' dump s.processPids)
      (fun _ _ => True) s := by
  unfold update
  rw [wp_bind, wp_modify, wp_bind, wp_get, wp_bind]
  refine wp_mono_ok (drainAll_keepsOwners hpoints rfl) fun _ t ht => ?_
  have hrest : KeepsLogs (do
      updateStart
      updateHints currTime status
      modify fun s => { s with isFirstUpdate := false, updateTime := currTime }
      updateStop) :=
    .bind (updateStart_keeps.comp Prod.fst) fun _ =>
      .bind (updateHints_keeps.comp Prod.fst) fun _ =>
        .bind (.modify fun _ => rfl) fun _ => updateStop_keeps
  exact wp_mono (hrest t) (fun _ _ hs' => ht.of_buffers hs') fun _ _ _ => trivial

/-- After an update that returns, every short region record points at the short region that its own
process has dumped for it. -/
theorem update_keepsOwners (s s' : ApplicationSampler) (currTime : ℤ) (dump : ℤ → Dump)
    (status : ℕ → CpuStatus)
    (hpoints : ∀ pid ∈ s.processPids, PointsAt (dump pid).records (dump pid).shortRegions)
    (hupdate : update currTime dump status s = .ok () s') : s'.KeepsOwners dump s.processPids := by
  have h : wp (update currTime dump status) _ _ s := wp_update hpoints
  unfold wp at h
  rw [hupdate] at h
  exact h

/-- Two processes, the first of which marks epochs of its own, have been in short regions. -/
def twoProcesses : ApplicationSampler where
  numCpu := 0
  statusCache := fun _ => {}
  processPids := [11, 22]
  processes := fun pid =>
    if pid = 11 then { filter := some (.proxyEpoch ⟨5, 1, -1⟩) } else {}
  clientPids := [11, 22]
  numClient := 2
  timeZero := 0

/-- The dumps of the two processes. -/
def twoDumps (pid : ℤ) : Dump :=
  if pid = 11 then
    { records := [⟨1, 11, .shortRegion, 1⟩, ⟨2, 11, .regionEntry, 5⟩, ⟨3, 11, .regionExit, 5⟩,
        ⟨4, 11, .shortRegion, 0⟩]
      shortRegions := [⟨6, 1, 10⟩, ⟨7, 2, 20⟩] }
  else { records := [⟨1, 22, .shortRegion, 0⟩], shortRegions := [⟨6, 3, 30⟩] }

theorem pointsAt_twoDumps : ∀ pid ∈ twoProcesses.processPids,
    PointsAt (twoDumps pid).records (twoDumps pid).shortRegions := by
  unfold PointsAt
  decide

theorem update_keepsOwners_twoProcesses :
    ∃ s', update 9 twoDumps (fun _ => {}) twoProcesses = .ok () s' ∧
      s'.KeepsOwners twoDumps twoProcesses.processPids := by
  have hupdate := eq_ok_of_returns (m := update 9 twoDumps fun _ => {}) (s := twoProcesses)
    (by decide +kernel)
  exact ⟨_, hupdate, update_keepsOwners _ _ _ _ _ pointsAt_twoDumps hupdate⟩

end Rest

end ApplicationSampler

end Geopm
