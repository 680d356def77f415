import Geopm.App.SamplerSteps

/-!
# When the controller shuts down

The clients' record logs are drained by the updates of one sampler, each client at its own pace.

* `SamplerSystem` : the sampler, and what it has drained of the stream of each client;
* `ClientStream` : a stream from its start record to its stop record;
* `SamplerSystem.Overtakes` : the last running client stops before another one has started;
* `shutdown_of_reachable` : the clients that are left, the exceptions and the shutdown of every run.
-/

namespace Geopm

open Prog ApplicationSampler
open List

/-! ### Streams of clients -/

/-- A record of the event `e` has been sent. -/
def Sent (e : Event) (rs : List Record) : Prop := ∃ r ∈ rs, r.event = e

/-- What the client `p` has sent: the start record comes first, the stop record last. -/
structure ClientStream (p : ℤ) (rs : List Record) : Prop where
  process : ∀ r ∈ rs, r.process = p
  accepted : ({} : ValidateRecord).Accepts rs
  start : ∀ pre r post, rs = pre ++ r :: post → (r.event = .startProfile ↔ pre = [])
  stop : ∀ pre r post, rs = pre ++ r :: post → r.event = .stopProfile → post = []

/-- The start records less the stop records. -/
def running (rs : List Record) : ℤ :=
  (ofEvent .startProfile rs).length - (ofEvent .stopProfile rs).length

section Streams

variable {p : ℤ} {rs ss : List Record}

theorem sent_iff {e : Event} : Sent e rs ↔ ofEvent e rs ≠ [] := by
  refine ⟨fun ⟨r, hr⟩ => ne_nil_of_mem (mem_ofEvent.mpr hr), fun h => ?_⟩
  obtain ⟨r, hr⟩ := exists_mem_of_ne_nil _ h
  exact ⟨r, mem_ofEvent.mp hr⟩

theorem sent_append {e : Event} : Sent e (rs ++ ss) ↔ Sent e rs ∨ Sent e ss := by
  rw [sent_iff, sent_iff, sent_iff, ofEvent_append, ← not_and_or, not_iff_not,
    append_eq_nil_iff]

theorem running_append : running (rs ++ ss) = running rs + running ss := by
  unfold running
  rw [ofEvent_append, ofEvent_append, length_append, length_append]
  omega

namespace ClientStream

theorem nil : ClientStream p [] where
  process := nofun
  accepted := trivial
  start := by intro pre r post h; cases pre <;> cases h
  stop := by intro pre r post h; cases pre <;> cases h

/-- What has been sent of a stream is such a stream. -/
theorem of_append (h : ClientStream p (rs ++ ss)) : ClientStream p rs where
  process r hr := h.process r (mem_append_left _ hr)
  accepted := by
    obtain ⟨v, hv⟩ := ValidateRecord.accepts_iff.mp h.accepted
    obtain ⟨w, hw, -⟩ := ValidateRecord.run_append_eq_some.mp hv
    exact ValidateRecord.accepts_iff.mpr ⟨w, hw⟩
  start pre r post hrs := h.start pre r (post ++ ss) (by rw [hrs, append_assoc]; rfl)
  stop pre r post hrs hevent := by
    have hpost := h.stop pre r (post ++ ss) (by rw [hrs, append_assoc]; rfl) hevent
    exact (append_eq_nil_iff.mp hpost).1

theorem of_whole {first last : Record} {mid : List Record}
    (hprocess : ∀ r ∈ first :: (mid ++ [last]), r.process = p)
    (haccepts : ({} : ValidateRecord).Accepts (first :: (mid ++ [last])))
    (hfirst : first.event = .startProfile) (hlast : last.event = .stopProfile)
    (hmid : ∀ r ∈ mid, r.event ≠ .startProfile ∧ r.event ≠ .stopProfile) :
    ClientStream p (first :: (mid ++ [last])) where
  process := hprocess
  accepted := haccepts
  start pre r post h := by
    cases pre with
    | nil =>
      obtain ⟨rfl, -⟩ := List.cons.inj h
      exact ⟨fun _ => rfl, fun _ => hfirst⟩
    | cons q pre =>
      obtain ⟨-, htail⟩ := List.cons.inj h
      have hr : r ∈ mid ++ [last] := htail ▸ mem_append_right _ mem_cons_self
      refine ⟨fun hevent => ?_, nofun⟩
      obtain hr | hr := mem_append.mp hr
      · exact absurd hevent (hmid r hr).1
      · rw [mem_singleton.mp hr, hlast] at hevent
        cases hevent
  stop pre r post h hevent := by
    obtain rfl | ⟨post, q, rfl⟩ := post.eq_nil_or_concat
    · rfl
    · have hsplit : (first :: mid) ++ [last] = (pre ++ r :: post) ++ [q] := by
        rw [cons_append, h, concat_eq_append, append_assoc, cons_append]
      have hr : r ∈ first :: mid :=
        (append_inj_left' hsplit rfl) ▸ mem_append_right _ mem_cons_self
      obtain rfl | hr := mem_cons.mp hr
      · rw [hfirst] at hevent
        cases hevent
      · exact absurd hevent (hmid r hr).2

section

variable (h : ClientStream p rs)
include h

theorem length_starts : (ofEvent .startProfile rs).length ≤ 1 := by
  cases rs with
  | nil => exact Nat.zero_le _
  | cons r rs =>
    have hrest : ofEvent .startProfile rs = [] := by
      refine filter_eq_nil_iff.mpr fun q hq hevent => ?_
      obtain ⟨pre, post, rfl⟩ := append_of_mem hq
      exact nomatch (h.start (r :: pre) q post rfl).mp (beq_iff_eq.mp hevent)
    have hhead : (ofEvent .startProfile [r]).length ≤ 1 := length_filter_le _ _
    rw [← singleton_append, ofEvent_append, hrest, append_nil]
    exact hhead

theorem length_stops : (ofEvent .stopProfile rs).length ≤ 1 := by
  obtain rfl | ⟨pre, r, rfl⟩ := rs.eq_nil_or_concat
  · exact Nat.zero_le _
  · rw [concat_eq_append] at h ⊢
    have hrest : ofEvent .stopProfile pre = [] := by
      refine filter_eq_nil_iff.mpr fun q hq hevent => ?_
      obtain ⟨front, post, rfl⟩ := append_of_mem hq
      have hlast := h.stop front q (post ++ [r]) (by simp) (beq_iff_eq.mp hevent)
      exact absurd hlast (by simp)
    have hhead : (ofEvent .stopProfile [r]).length ≤ 1 := length_filter_le _ _
    rw [ofEvent_append, hrest, nil_append]
    exact hhead

theorem sent_start (hne : rs ≠ []) : Sent .startProfile rs := by
  cases rs with
  | nil => exact absurd rfl hne
  | cons r rs => exact ⟨r, mem_cons_self, (h.start [] r rs rfl).mpr rfl⟩

theorem start_of_stop (hstop : Sent .stopProfile rs) :
    Sent .startProfile rs := by
  obtain ⟨r, hr, -⟩ := hstop
  exact h.sent_start (ne_nil_of_mem hr)

theorem running_nonneg : 0 ≤ running rs := by
  have hstops := h.length_stops
  have hstart := h.start_of_stop
  rw [sent_iff, sent_iff, ← length_pos_iff, ← length_pos_iff] at hstart
  unfold running
  omega

theorem running_eq_zero_iff :
    running rs = 0 ↔ (Sent .startProfile rs → Sent .stopProfile rs) := by
  have hstarts := h.length_starts
  have hstops := h.length_stops
  have hnonneg := h.running_nonneg
  rw [sent_iff, sent_iff, ← length_pos_iff, ← length_pos_iff]
  unfold running at *
  omega

end

end ClientStream

end Streams

/-! ### The system -/

/-- The sampler, and what it has drained of the streams of its clients. -/
structure SamplerSystem where
  sampler : ApplicationSampler
  heard : ℤ → List Record := fun _ => []
  /-- An update has raised. -/
  failed : Bool := false

/-- An update, with what it finds in the logs and in the status table. -/
structure UpdateAction where
  currTime : ℤ
  dump : ℤ → Dump
  status : ℕ → CpuStatus

/-- The filter of a configuration, if there is one. -/
def makeFilter : Option FilterConfig → Except Exception (Option RecordFilter)
  | none => .ok none
  | some c => (RecordFilter.make c).map some

namespace SamplerSystem

/-- The system when the clients have been connected. -/
def init (numCpu : ℕ) (filter : Option RecordFilter) (pids : List ℤ) (status : ℕ → CpuStatus)
    (timeZero : ℤ) : SamplerSystem where
  sampler := connect numCpu filter pids status timeZero

/-- The stream of a client after an update. -/
def heardAfter (s : SamplerSystem) (a : UpdateAction) (p : ℤ) : List Record :=
  s.heard p ++ (a.dump p).records

/-- One update. -/
def next (s : SamplerSystem) (a : UpdateAction) : SamplerSystem :=
  match update a.currTime a.dump a.status s.sampler with
  | .ok _ sampler => { s with sampler, heard := s.heardAfter a }
  | .error _ sampler => { s with sampler, heard := s.heardAfter a, failed := true }

/-- What the clients send and show is well-formed. -/
def WellFormed (numCpu : ℕ) (pids : List ℤ) (s : SamplerSystem) (a : UpdateAction) : Prop :=
  (∀ p ∈ pids, ClientStream p (s.heardAfter a p)) ∧ HintsOk numCpu a.status

/-- The filters do not have to compare entries in a history of size zero. -/
def Filterable (c : Option FilterConfig) (pids : List ℤ) (a : UpdateAction) : Prop :=
  ∀ p ∈ pids, Filters c (a.dump p).records

/-- The update drains the stop record of the last running client, while another client has not
started. -/
def Overtakes (pids : List ℤ) (s : SamplerSystem) (a : UpdateAction) : Prop :=
  (∃ p ∈ pids, Sent .stopProfile (a.dump p).records) ∧
    (∀ p ∈ pids, Sent .startProfile (s.heardAfter a p) → Sent .stopProfile (s.heardAfter a p)) ∧
    ∃ p ∈ pids, ¬ Sent .startProfile (s.heardAfter a p)

/-- No update has raised, and the clients that are left are those that have not stopped. -/
def Tracks (pids : List ℤ) (s : SamplerSystem) : Prop :=
  s.failed = false ∧
    ∀ p, p ∈ s.sampler.clientPids ↔ p ∈ pids ∧ ¬ Sent .stopProfile (s.heard p)

/-- All clients have stopped. -/
def AllStopped (pids : List ℤ) (s : SamplerSystem) : Prop :=
  ∀ p ∈ pids, Sent .stopProfile (s.heard p)

/-- What every run of well-formed updates keeps. -/
structure Inv (c : Option FilterConfig) (numCpu : ℕ) (pids : List ℤ) (s : SamplerSystem) :
    Prop where
  tracks : s.Tracks pids
  ready : ∃ sent, Ready c s.heard sent s.sampler
  mem_processPids : ∀ p, p ∈ s.sampler.processPids ↔ p ∈ pids
  numCpu : s.sampler.numCpu = numCpu
  streams : ∀ p ∈ pids, ClientStream p (s.heard p)
  clientsNodup : s.sampler.clientPids.Nodup
  numRegistered : s.sampler.numRegistered =
    (s.sampler.processPids.map fun p => running (s.heard p)).sum

end SamplerSystem

/-- The updates of a sampler, one after the other. -/
def samplerSystem : Lts SamplerSystem UpdateAction := Lts.ofFun SamplerSystem.next

namespace SamplerSystem

variable {c : Option FilterConfig} {f : Option RecordFilter} {numCpu : ℕ} {pids : List ℤ}
  {status : ℕ → CpuStatus} {timeZero : ℤ}

section Init

theorem drained_nil (hf : makeFilter c = .ok f) : Drained c [] [] { filter := f } := by
  refine ⟨rfl, ?_⟩
  cases c with
  | none =>
    cases hf
    exact ⟨rfl, rfl⟩
  | some c =>
    rw [makeFilter] at hf
    cases hmake : RecordFilter.make c with
    | error e =>
      rw [hmake] at hf
      cases hf
    | ok f' =>
      rw [hmake] at hf
      cases hf
      exact ⟨f', rfl, RecordFilter.fed_make hmake⟩

theorem inv_init (hf : makeFilter c = .ok f) (hstatus : HintsOk numCpu status) :
    Inv c numCpu pids (init numCpu f pids status timeZero) where
  tracks := by
    refine ⟨rfl, fun p => mem_sortedPids.trans ⟨fun hp => ⟨hp, ?_⟩, fun hp => hp.1⟩⟩
    rintro ⟨r, hr, -⟩
    cases hr
  ready := ⟨fun _ => [], nodup_sortedPids, fun _ _ => drained_nil hf, hstatus, fun cpuIdx =>
    ⟨nofun, fun ⟨p, hp⟩ => absurd hp (Finset.notMem_empty _)⟩⟩
  mem_processPids _ := mem_sortedPids
  numCpu := rfl
  streams _ _ := .nil
  clientsNodup := nodup_sortedPids
  numRegistered := by
    change (0 : ℤ) = (List.map (fun _ => (0 : ℤ)) _).sum
    rw [map_const', List.sum_replicate, nsmul_zero]

end Init

variable {s : SamplerSystem}

section Step

variable {a : UpdateAction} {e : Event} {ps : List ℤ} {dump : ℤ → Dump}

/-- The processes of the records in the logs of clients. -/
theorem mem_logged_process (h : ∀ p ∈ ps, ∀ r ∈ (dump p).records, r.process = p) {p : ℤ} :
    p ∈ (logged ps dump e).map (·.process) ↔ p ∈ ps ∧ Sent e (dump p).records := by
  rw [mem_map]
  constructor
  · rintro ⟨r, hr, rfl⟩
    obtain ⟨q, hq, hr⟩ := mem_flatMap.mp hr
    obtain ⟨hmem, hevent⟩ := mem_ofEvent.mp hr
    rw [h q hq r hmem]
    exact ⟨hq, r, hmem, hevent⟩
  · rintro ⟨hp, r, hmem, hevent⟩
    exact ⟨r, mem_flatMap.mpr ⟨p, hp, mem_ofEvent.mpr ⟨hmem, hevent⟩⟩, h p hp r hmem⟩

theorem nodup_logged_process (hps : ps.Nodup)
    (h : ∀ p ∈ ps, ∀ r ∈ (dump p).records, r.process = p)
    (hone : ∀ p ∈ ps, (ofEvent e (dump p).records).length ≤ 1) :
    ((logged ps dump e).map (·.process)).Nodup := by
  rw [logged, map_flatMap, nodup_flatMap]
  constructor
  · intro p hp
    cases hlog : ofEvent e (dump p).records with
    | nil => exact nodup_nil
    | cons r rs =>
      have hlength := hone p hp
      rw [hlog, length_cons] at hlength
      have hrs : rs = [] := length_eq_zero_iff.mp (by omega)
      rw [hrs]
      exact nodup_singleton _
  · refine hps.imp_of_mem fun {p q} hp hq hne => ?_
    intro x hx hx'
    obtain ⟨r, hr, rfl⟩ := mem_map.mp hx
    obtain ⟨r', hr', heq⟩ := mem_map.mp hx'
    rw [h p hp r (mem_ofEvent.mp hr).1, h q hq r' (mem_ofEvent.mp hr').1] at heq
    exact hne heq.symm

theorem sum_running (ps : List ℤ) (heard : ℤ → List Record) (dump : ℤ → Dump) :
    (ps.map fun p => running (heard p ++ (dump p).records)).sum =
      (ps.map fun p => running (heard p)).sum + (logged ps dump .startProfile).length -
        (logged ps dump .stopProfile).length := by
  induction ps with
  | nil => rfl
  | cons p ps ih =>
    rw [map_cons, map_cons, sum_cons, sum_cons, ih, running_append]
    unfold logged
    rw [flatMap_cons, flatMap_cons, length_append, length_append, running,
      running]
    omega

theorem sum_running_eq_zero_iff {heard : ℤ → List Record}
    (h : ∀ p ∈ ps, ClientStream p (heard p)) :
    (ps.map fun p => running (heard p)).sum = 0 ↔
      ∀ p ∈ ps, Sent .startProfile (heard p) → Sent .stopProfile (heard p) := by
  induction ps with
  | nil => exact ⟨fun _ => nofun, fun _ => rfl⟩
  | cons p ps ih =>
    have hp := h p mem_cons_self
    have hps := fun q hq => h q (mem_cons_of_mem _ hq)
    have hsum : 0 ≤ (ps.map fun p => running (heard p)).sum := by
      refine sum_nonneg fun x hx => ?_
      obtain ⟨q, hq, rfl⟩ := mem_map.mp hx
      exact (hps q hq).running_nonneg
    have hnonneg := hp.running_nonneg
    rw [map_cons, sum_cons, forall_mem_cons, ← hp.running_eq_zero_iff, ← ih hps]
    omega

theorem not_sent_stop {p : ℤ} (h : ClientStream p (s.heardAfter a p))
    (hstop : Sent .stopProfile (a.dump p).records) : ¬ Sent .stopProfile (s.heard p) := by
  intro hold
  have hlength := h.length_stops
  rw [heardAfter, ofEvent_append, length_append] at hlength
  rw [sent_iff, ← length_pos_iff] at hstop hold
  omega

/-- An update is an update of the sampler that does not raise. -/
theorem next_eq (h : Inv c numCpu pids s) {sent : ℤ → List Record}
    (hready : Ready c s.heard sent s.sampler) (hc : Filterable c pids a)
    (ha : WellFormed numCpu pids s a) :
    ∃ sampler o, s.next a = { s with sampler, heard := s.heardAfter a } ∧
      Updated s.sampler a.dump a.status o sampler ∧
      Ready c (s.heardAfter a) (fun p => sent p ++ o p) sampler := by
  have hstreams : ∀ p ∈ s.sampler.processPids, ClientStream p (s.heardAfter a p) :=
    fun p hp => ha.1 p ((h.mem_processPids p).mp hp)
  have hprocess : ∀ p ∈ s.sampler.processPids, ∀ r ∈ (a.dump p).records, r.process = p :=
    fun p hp r hr => (hstreams p hp).process r (mem_append_right _ hr)
  have hone : ∀ p ∈ s.sampler.processPids,
      (ofEvent .stopProfile (a.dump p).records).length ≤ 1 := by
    intro p hp
    have hlength := (hstreams p hp).length_stops
    rw [heardAfter, ofEvent_append, length_append] at hlength
    omega
  have hsub : ∀ p ∈ (logged s.sampler.processPids a.dump .stopProfile).map (·.process),
      p ∈ s.sampler.clientPids := by
    intro p hp
    obtain ⟨hp, hstop⟩ := (mem_logged_process hprocess).mp hp
    exact (h.tracks.2 p).mpr ⟨(h.mem_processPids p).mp hp, not_sent_stop (hstreams p hp) hstop⟩
  have hnum : ((logged s.sampler.processPids a.dump .stopProfile).length : ℤ) ≤
      s.sampler.numRegistered + (logged s.sampler.processPids a.dump .startProfile).length := by
    have hsum := sum_running s.sampler.processPids s.heard a.dump
    have hnonneg : 0 ≤ (s.sampler.processPids.map fun p =>
        running (s.heard p ++ (a.dump p).records)).sum := by
      refine sum_nonneg fun x hx => ?_
      obtain ⟨p, hp, rfl⟩ := mem_map.mp hx
      exact (hstreams p hp).running_nonneg
    rw [h.numRegistered]
    omega
  have hspec := @update_spec _ _ _ a.dump _ a.currTime a.status hready
    (fun p hp => hc p ((h.mem_processPids p).mp hp)) (fun p hp => (hstreams p hp).accepted)
    (by rw [h.numCpu]; exact ha.2) h.clientsNodup
    (nodup_logged_process hready.pidsNodup hprocess hone) hsub hnum
  unfold wp at hspec
  cases hm : update a.currTime a.dump a.status s.sampler with
  | ok _ sampler =>
    rw [hm] at hspec
    obtain ⟨o, hupdated, hready'⟩ := hspec
    refine ⟨sampler, o, ?_, hupdated, hready'⟩
    rw [next, hm]
  | error _ sampler =>
    rw [hm] at hspec
    exact hspec.elim

/-- One update of well-formed streams keeps the invariant, and shuts down when it stops the last
of the running clients. -/
theorem next_spec (h : Inv c numCpu pids s) (hc : Filterable c pids a)
    (ha : WellFormed numCpu pids s a) :
    Inv c numCpu pids (s.next a) ∧ ((s.next a).sampler.doShutdown = true ↔
      s.sampler.doShutdown = true ∨ (∃ p ∈ pids, Sent .stopProfile (a.dump p).records) ∧
        ∀ p ∈ pids, Sent .startProfile (s.heardAfter a p) →
          Sent .stopProfile (s.heardAfter a p)) := by
  obtain ⟨sent, hsent⟩ := h.ready
  obtain ⟨sampler, o, hnext, hupdated, hready⟩ := next_eq h hsent hc ha
  rw [hnext]
  have hstreams : ∀ p ∈ s.sampler.processPids, ClientStream p (s.heardAfter a p) :=
    fun p hp => ha.1 p ((h.mem_processPids p).mp hp)
  have hprocess : ∀ p ∈ s.sampler.processPids, ∀ r ∈ (a.dump p).records, r.process = p :=
    fun p hp r hr => (hstreams p hp).process r (mem_append_right _ hr)
  have hnum : sampler.numRegistered =
      (s.sampler.processPids.map fun p => running (s.heardAfter a p)).sum := by
    rw [hupdated.numRegistered, h.numRegistered]
    exact (sum_running _ _ _).symm
  constructor
  · refine ⟨⟨h.tracks.1, fun p => ?_⟩, ⟨_, hready⟩, ?_, ?_, ha.1, ?_, ?_⟩
    · change p ∈ sampler.clientPids ↔
        p ∈ pids ∧ ¬ Sent .stopProfile (s.heard p ++ (a.dump p).records)
      rw [hupdated.clientPids, h.clientsNodup.mem_sdiff_iff, mem_logged_process hprocess,
        h.tracks.2, sent_append, h.mem_processPids]
      tauto
    · rw [hupdated.processPids]
      exact h.mem_processPids
    · rw [hupdated.numCpu, h.numCpu]
    · rw [hupdated.clientPids]
      exact h.clientsNodup.diff
    · rw [hupdated.processPids]
      exact hnum
  · change sampler.doShutdown = true ↔ _
    rw [hupdated.doShutdown, Bool.or_eq_true, decide_eq_true_iff]
    -- The clients that have stopped in this update were counted when it started.
    have hzero : sampler.numRegistered = 0 → (s.sampler.numRegistered +
        (logged s.sampler.processPids a.dump .startProfile).length ≠ 0 ↔
          ∃ p ∈ s.sampler.processPids, Sent .stopProfile (a.dump p).records) := by
      intro hzero
      rw [hupdated.numRegistered] at hzero
      have hlength : s.sampler.numRegistered +
          (logged s.sampler.processPids a.dump .startProfile).length ≠ 0 ↔
            logged s.sampler.processPids a.dump .stopProfile ≠ [] := by
        rw [← length_pos_iff]
        omega
      rw [hlength, logged, Ne, flatMap_eq_nil_iff]
      simp only [not_forall, sent_iff, exists_prop, ne_eq]
    simp only [← h.mem_processPids]
    rw [and_congr_right hzero, hnum, sum_running_eq_zero_iff hstreams, and_comm]

end Step

section Runs

theorem inv_of_reachable (hf : makeFilter c = .ok f) (hstatus : HintsOk numCpu status)
    (h : samplerSystem.ReachableIf (fun s a => WellFormed numCpu pids s a ∧ Filterable c pids a)
      (init numCpu f pids status timeZero) s) : Inv c numCpu pids s := by
  refine h.invariant (inv_init hf hstatus) ?_
  rintro s a _ hs ⟨ha, hc⟩ rfl
  exact (next_spec hs hc ha).1

theorem next_heard (s : SamplerSystem) (a : UpdateAction) : (s.next a).heard = s.heardAfter a := by
  unfold next
  cases update a.currTime a.dump a.status s.sampler <;> rfl

/-- No run of well-formed streams raises, and the clients that are left are those that have not
stopped.  When no update overtakes a client, the sampler only shuts down after the last client has
stopped; an update that overtakes one shuts down too early. -/
theorem shutdown_of_reachable (hf : makeFilter c = .ok f) (hstatus : HintsOk numCpu status) :
    (∀ s, samplerSystem.ReachableIf (fun s a => WellFormed numCpu pids s a ∧ Filterable c pids a)
      (init numCpu f pids status timeZero) s → s.Tracks pids) ∧
    (∀ s, samplerSystem.ReachableIf
      (fun s a => (WellFormed numCpu pids s a ∧ Filterable c pids a) ∧ ¬ s.Overtakes pids a)
      (init numCpu f pids status timeZero) s →
        s.sampler.doShutdown = true → s.AllStopped pids) ∧
    ∀ s a, samplerSystem.ReachableIf (fun s a => WellFormed numCpu pids s a ∧ Filterable c pids a)
      (init numCpu f pids status timeZero) s → WellFormed numCpu pids s a → Filterable c pids a →
        s.Overtakes pids a →
          (s.next a).sampler.doShutdown = true ∧ ¬ (s.next a).AllStopped pids := by
  refine ⟨fun s h => (inv_of_reachable hf hstatus h).tracks, fun s h => ?_, ?_⟩
  · refine h.invariant_of (I := fun s => s.sampler.doShutdown = true → s.AllStopped pids)
      (fun t ht => inv_of_reachable hf hstatus (ht.mono fun _ _ h => h.1)) nofun ?_
    rintro s a _ hs hshutdown ⟨⟨ha, hc⟩, hovertakes⟩ rfl hnext p hp
    rw [next_heard]
    obtain hbefore | ⟨hstop, hall⟩ := (next_spec hs hc ha).2.mp hnext
    · exact sent_append.mpr (Or.inl (hshutdown hbefore p hp))
    · refine hall p hp ?_
      by_contra hstart
      exact hovertakes ⟨hstop, hall, p, hp, hstart⟩
  · rintro s a hs ha hc ⟨hstop, hall, p, hp, hstart⟩
    refine ⟨(next_spec (inv_of_reachable hf hstatus hs) hc ha).2.mpr (Or.inr ⟨hstop, hall⟩), ?_⟩
    intro hstopped
    have hstopped := hstopped p hp
    rw [next_heard] at hstopped
    exact hstart ((ha.1 p hp).start_of_stop hstopped)

end Runs

/-- An update in which the client `p` sends `records p`. -/
def sending (records : ℤ → List Record) : UpdateAction :=
  { currTime := 0, dump := fun p => { records := records p }, status := fun _ => {} }

theorem wellFormed_sending {records : ℤ → List Record} {pids : List ℤ} {s : SamplerSystem}
    (h : ∀ p ∈ pids, ClientStream p (s.heard p ++ records p)) :
    WellFormed 1 pids s (sending records) ∧ Filterable none pids (sending records) :=
  ⟨⟨h, fun _ _ => Nat.zero_lt_succ _⟩, fun _ _ => nofun⟩

/-- A client that starts and stops at once. -/
theorem startStop_stream (p : ℤ) :
    ClientStream p [⟨0, p, .startProfile, 0⟩, ⟨1, p, .stopProfile, 0⟩] := by
  rw [← nil_append [(⟨1, p, .stopProfile, 0⟩ : Record)]]
  refine ClientStream.of_whole ?_ ?_ rfl rfl nofun
  · rintro r hr
    obtain rfl | hr := mem_cons.mp hr
    · rfl
    · rw [mem_singleton.mp hr]
  · have hfirst : ({} : ValidateRecord).step ⟨0, p, .startProfile, 0⟩ =
        some { isEmpty := false, time := 0, process := p } :=
      ValidateRecord.step_eq_some.mpr ⟨rfl, Int.le_refl _, trivial, rfl⟩
    have hsecond : ValidateRecord.step { isEmpty := false, time := 0, process := p }
        ⟨1, p, .stopProfile, 0⟩ = some { isEmpty := false, time := 1, process := p } :=
      ValidateRecord.step_eq_some.mpr ⟨rfl, Int.zero_le_ofNat 1, trivial, rfl⟩
    refine ValidateRecord.accepts_iff.mpr ⟨{ isEmpty := false, time := 1, process := p }, ?_⟩
    rw [nil_append, ValidateRecord.run, hfirst, Option.bind_some, ValidateRecord.run, hsecond]
    rfl

/-- The first client has come and gone when the second one starts. -/
theorem late_client_overtaken : ∃ s, samplerSystem.ReachableIf
    (fun s a => WellFormed 1 [1, 2] s a ∧ Filterable none [1, 2] a)
    (init 1 none [1, 2] (fun _ => {}) 0) s ∧
    s.sampler.doShutdown = true ∧ ¬ s.AllStopped [1, 2] := by
  let early : UpdateAction := sending fun p =>
    if p = 1 then [⟨0, p, .startProfile, 0⟩, ⟨1, p, .stopProfile, 0⟩] else []
  have hearly : WellFormed 1 [1, 2] (init 1 none [1, 2] (fun _ => {}) 0) early ∧
      Filterable none [1, 2] early := by
    refine wellFormed_sending fun p _ => ?_
    change ClientStream p (if p = 1 then _ else _)
    split_ifs
    · exact startStop_stream p
    · exact .nil
  refine ⟨_, (Lts.ReachableIf.refl _).tail hearly rfl, ?_, fun h => ?_⟩
  · have hinv : Inv none 1 [1, 2] (init 1 none [1, 2] (fun _ => {}) 0) :=
      inv_init rfl fun _ _ => Nat.zero_lt_succ _
    refine (next_spec hinv hearly.2 hearly.1).2.mpr (Or.inr ⟨⟨1, by decide, ?_⟩, ?_⟩)
    · exact ⟨_, mem_cons_of_mem _ mem_cons_self, rfl⟩
    · intro p hp hstart
      obtain rfl | rfl : p = 1 ∨ p = 2 := by simpa using hp
      · exact ⟨_, mem_cons_of_mem _ mem_cons_self, rfl⟩
      · obtain ⟨r, hr, -⟩ := hstart
        exact absurd hr not_mem_nil
  · obtain ⟨r, hr, -⟩ := h 2 (by decide)
    rw [next_heard] at hr
    exact absurd hr not_mem_nil

/-- Two clients that start in the first update and stop in the second one. -/
theorem two_clients_shutdown : ∃ s, samplerSystem.ReachableIf
    (fun s a => WellFormed 1 [1, 2] s a ∧ Filterable none [1, 2] a)
    (init 1 none [1, 2] (fun _ => {}) 0) s ∧
    s.Tracks [1, 2] ∧ s.sampler.doShutdown = true ∧ s.AllStopped [1, 2] := by
  let starts : UpdateAction := sending fun p => [⟨0, p, .startProfile, 0⟩]
  let stops : UpdateAction := sending fun p => [⟨1, p, .stopProfile, 0⟩]
  let s₀ := init 1 none [1, 2] (fun _ => {}) 0
  have hstarts : WellFormed 1 [1, 2] s₀ starts ∧ Filterable none [1, 2] starts :=
    wellFormed_sending fun p _ => by
      have hwhole : ClientStream p ([⟨0, p, .startProfile, 0⟩] ++ [⟨1, p, .stopProfile, 0⟩]) :=
        startStop_stream p
      exact hwhole.of_append
  have hstops : WellFormed 1 [1, 2] (s₀.next starts) stops ∧ Filterable none [1, 2] stops := by
    refine wellFormed_sending fun p _ => ?_
    rw [next_heard]
    exact startStop_stream p
  have hreach : samplerSystem.ReachableIf
      (fun s a => (WellFormed 1 [1, 2] s a ∧ Filterable none [1, 2] a) ∧ ¬ s.Overtakes [1, 2] a)
      s₀ ((s₀.next starts).next stops) := by
    refine ((Lts.ReachableIf.refl _).tail ⟨hstarts, ?_⟩ rfl).tail ⟨hstops, ?_⟩ rfl
    · rintro ⟨-, -, p, -, hp⟩
      rw [heardAfter, next_heard] at hp
      exact hp ⟨_, mem_cons_self, rfl⟩
    · rintro ⟨⟨p, -, r, hr, hevent⟩, -⟩
      rw [mem_singleton.mp hr] at hevent
      cases hevent
  have hs₀ : HintsOk 1 (fun _ => ({} : CpuStatus)) := fun _ _ => Nat.zero_lt_succ _
  have hrun := hreach.mono fun _ _ h => h.1
  have hclaim := @shutdown_of_reachable none none 1 [1, 2] (fun _ => {}) 0 rfl hs₀
  have hshutdown : ((s₀.next starts).next stops).sampler.doShutdown = true := by
    have hinv : Inv none 1 [1, 2] (s₀.next starts) :=
      (next_spec (inv_init rfl hs₀) hstarts.2 hstarts.1).1
    refine (next_spec hinv hstops.2 hstops.1).2.mpr (Or.inr ⟨⟨1, by decide, ?_⟩, ?_⟩)
    · exact ⟨_, mem_cons_self, rfl⟩
    · exact fun p _ _ => ⟨_, mem_append_right _ mem_cons_self, rfl⟩
  exact ⟨_, hrun, hclaim.1 _ hrun, hshutdown, hclaim.2.1 _ hreach hshutdown⟩

end SamplerSystem

end Geopm
