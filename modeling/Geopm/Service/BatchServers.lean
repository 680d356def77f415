import Geopm.Service.Runs

/-!
# Batch servers are recorded

* `Tracked` : every key of `_batch_subp` is the batch server of one open session, a client has at
  most one batch server, and closing the session ends it;
* `Orphans` : the actions that leave a batch server without a record;
* `tracked_of_reachable` : in every run without them, the batch servers are tracked.

`stop_batch` with another PID than the recorded one removes the record, and leaves the server
running.
-/

namespace Geopm

open Finset

/-- Each key of `_batch_subp` is a process, and is recorded in one open session: that of the
client that asked for it. -/
structure Batches (w : World) : Prop where
  recorded : ∀ v ∈ w.batchSubp, ∃ p, w.batchOf p = some v
  unique : ∀ v ∈ w.batchSubp, ∀ p q, w.batchOf p = some v → w.batchOf q = some v → p = q
  client : ∀ v ∈ w.batchSubp, ∀ server, w.servers.lookup v = some server →
    w.batchOf server.clientPid = some v
  procs : ∀ v ∈ w.batchSubp, v ∈ w.procs

/-- The action leaves a batch server without a record, or with two of them: `stop_batch` names
another server than the recorded one, or `start_batch` starts a server whose pipe breaks, or whose
PID another session still records. -/
def Orphans (w : World) : Action → Prop
  | .call _ (.stopBatch c v) => w.active c = true ∧ w.batchOf c ≠ none ∧ w.batchOf c ≠ some v
  | .call o (.startBatch c signals controls) =>
      w.active c = true ∧ w.allowsBatch c signals controls ∧ w.batchOf c = none ∧
        ∃ v proc, o.popen = some (v, proc) ∧ (o.batchKey = none ∨ ∃ q, w.batchOf q = some v)
  | _ => False

/-- What is known about the batch servers of a state. -/
structure Tracked (w : World) : Prop where
  recorded : ∀ v ∈ w.batchSubp, ∃! p, w.batchOf p = some v
  /-- A client does not have two batch servers. -/
  one : ∀ u ∈ w.batchSubp, ∀ v ∈ w.batchSubp, ∀ server server',
    w.servers.lookup u = some server → w.servers.lookup v = some server' →
      server.clientPid = server'.clientPid → u = v
  /-- A call that closes the session ends its batch server. -/
  closed : ∀ o r w', ¬ Orphans w (.call o r) → service.step w (.call o r) w' →
    ∀ p s v, w.sessions.lookup p = some s → s.batchServer = some v → v ∈ w.batchSubp →
      (∀ t, w'.sessions.lookup p = some t → ¬ s.SameClient t) →
        v ∉ w'.servers ∧ v ∉ w'.batchSubp

/-! ### Effects -/

section Effects

variable {w : World} {e : Effect}

theorem mem_subpWithout {v : Pid} {o : Option Pid} :
    v ∈ w.subpWithout o ↔ o ≠ some v ∧ v ∈ w.batchSubp := by
  cases o with
  | none => simp [World.subpWithout]
  | some u => simp [World.subpWithout, eq_comm]

theorem mem_of_batchOf {p v : Pid} (h : w.batchOf p = some v) : p ∈ w.sessions := by
  rw [World.batchOf, Option.bind_eq_some_iff] at h
  obtain ⟨s, hs, -⟩ := h
  exact (Dict.mem_iff _ _).mpr ⟨s, hs⟩

variable {w' : World}

theorem batchOf_erase {p q : Pid} (h : w'.sessions = w.sessions.erase p) :
    w'.batchOf q = if q = p then none else w.batchOf q := by
  rw [World.batchOf, h, Dict.lookup_erase_eq]
  split_ifs <;> rfl

theorem batchOf_insert {p q : Pid} {s : Session} {o : Option Pid}
    (h : w'.sessions = w.sessions.insert p s) (hs : s.batchServer = o) :
    w'.batchOf q = if q = p then o else w.batchOf q := by
  rw [World.batchOf, h, Dict.lookup_insert_eq]
  split_ifs
  · exact hs
  · rfl

/-- The batch server of a session ends with it. -/
theorem Batches.remove {p : Pid} (h : Batches w)
    (hsessions : w'.sessions = w.sessions.erase p)
    (hsubp : w'.batchSubp = w.subpWithout (w.batchOf p))
    (hservers : w'.servers = World.without w.servers (w.batchOf p))
    (hprocs : w'.procs = World.without w.procs (w.batchOf p)) : Batches w' := by
  have hbatch : ∀ q, w'.batchOf q = if q = p then none else w.batchOf q :=
    fun q => batchOf_erase hsessions
  have hne : ∀ {v q}, w.batchOf p ≠ some v → w.batchOf q = some v → w'.batchOf q = some v := by
    intro v q hv hq
    rw [hbatch, if_neg (fun heq : q = p => hv (heq ▸ hq)), hq]
  refine ⟨fun v hv => ?_, fun v hv q r hq hr => ?_, fun v hv server hserver => ?_, fun v hv => ?_⟩
  all_goals rw [hsubp, mem_subpWithout] at hv
  · obtain ⟨q, hq⟩ := h.recorded v hv.2
    exact ⟨q, hne hv.1 hq⟩
  · rw [hbatch] at hq hr
    split_ifs at hq
    split_ifs at hr
    exact h.unique v hv.2 q r hq hr
  · rw [hservers, lookup_without] at hserver
    exact hne hv.1 (h.client v hv.2 server hserver.2)
  · rw [hprocs, mem_without]
    exact ⟨hv.1, h.procs v hv.2⟩

theorem Batches.of_batchOf (h : Batches w) (hbatch : ∀ q, w'.batchOf q = w.batchOf q)
    (hsubp : w'.batchSubp = w.batchSubp) (hservers : w'.servers = w.servers)
    (hprocs : w'.procs = w.procs) : Batches w' := by
  refine ⟨fun v hv => ?_, fun v hv p q => ?_, fun v hv server hserver => ?_, fun v hv => ?_⟩
  all_goals rw [hsubp] at hv
  · obtain ⟨p, hp⟩ := h.recorded v hv
    exact ⟨p, (hbatch p).trans hp⟩
  · rw [hbatch, hbatch]
    exact h.unique v hv p q
  · rw [hbatch]
    exact h.client v hv server (hservers ▸ hserver)
  · rw [hprocs]
    exact h.procs v hv

theorem batchOf_keeps {p : Pid} {s t : Session}
    (hs : w.batchOf p = s.batchServer) (h : w'.sessions = w.sessions.insert p t)
    (ht : t.batchServer = s.batchServer) (q : Pid) : w'.batchOf q = w.batchOf q := by
  rw [batchOf_insert h ht]
  split_ifs with hq
  · rw [hq, hs]
  · rfl

theorem Batches.start {c v : Pid} {s : Session} {proc : Proc} {signals controls : List Request}
    (h : Batches w) (hs : w.batchOf c = none) (hv : v ∉ w.procs)
    (hnew : ∀ q, w.batchOf q ≠ some v) :
    Batches (Effect.apply w (.startServer c s v proc signals controls)) := by
  have hbatch : ∀ q, (Effect.apply w (.startServer c s v proc signals controls)).batchOf q =
      if q = c then some v else w.batchOf q := fun q => batchOf_insert rfl rfl
  have hold : ∀ {u q}, w.batchOf q = some u →
      (Effect.apply w (.startServer c s v proc signals controls)).batchOf q = some u := by
    intro u q hq
    have hne : q ≠ c := by
      rintro rfl
      rw [hs] at hq
      cases hq
    rw [hbatch, if_neg hne, hq]
  have hmem : ∀ {u}, u ∈ (Effect.apply w (.startServer c s v proc signals controls)).batchSubp →
      u = v ∨ u ∈ w.batchSubp := mem_insert.mp
  refine ⟨fun u hu => ?_, fun u hu q r hq hr => ?_, fun u hu server hserver => ?_, fun u hu => ?_⟩
  · rcases hmem hu with rfl | hu
    · exact ⟨c, by rw [hbatch, if_pos rfl]⟩
    · obtain ⟨q, hq⟩ := h.recorded u hu
      exact ⟨q, hold hq⟩
  · rw [hbatch] at hq hr
    by_cases huv : u = v
    · subst huv
      split_ifs at hq hr with hqc hrc
      · rw [hqc, hrc]
      · exact absurd hr (hnew r)
      · exact absurd hq (hnew q)
      · exact absurd hq (hnew q)
    · have hu := (hmem hu).resolve_left huv
      split_ifs at hq hr with hqc hrc
      · exact absurd (Option.some.inj hq).symm huv
      · exact absurd (Option.some.inj hq).symm huv
      · exact absurd (Option.some.inj hr).symm huv
      · exact h.unique u hu q r hq hr
  · change (w.servers.insert v _).lookup u = some server at hserver
    rw [Dict.lookup_insert_eq] at hserver
    split_ifs at hserver with huv
    · cases hserver
      rw [hbatch, if_pos rfl, huv]
    · exact hold (h.client u ((hmem hu).resolve_left huv) server hserver)
  · refine (AList.mem_insert _).mpr ?_
    exact (hmem hu).imp id (h.procs u)

theorem Batches.stop {c v : Pid} {s : Session} (h : Batches w) (hs : w.batchOf c = some v) :
    Batches (Effect.apply w (.stopServer c s v)) := by
  have hbatch : ∀ q, (Effect.apply w (.stopServer c s v)).batchOf q =
      if q = c then none else w.batchOf q := fun q => batchOf_insert rfl rfl
  have hold : ∀ {u q}, u ≠ v → w.batchOf q = some u →
      (Effect.apply w (.stopServer c s v)).batchOf q = some u := by
    intro u q hu hq
    have hne : q ≠ c := by
      rintro rfl
      exact hu (Option.some.inj (hs.symm.trans hq)).symm
    rw [hbatch, if_neg hne, hq]
  have hmem : ∀ {u}, u ∈ (Effect.apply w (.stopServer c s v)).batchSubp →
      u ≠ v ∧ u ∈ w.batchSubp := mem_erase.mp
  refine ⟨fun u hu => ?_, fun u hu q r hq hr => ?_, fun u hu server hserver => ?_, fun u hu => ?_⟩
  · obtain ⟨q, hq⟩ := h.recorded u (hmem hu).2
    exact ⟨q, hold (hmem hu).1 hq⟩
  · rw [hbatch] at hq hr
    split_ifs at hq
    split_ifs at hr
    exact h.unique u (hmem hu).2 q r hq hr
  · exact hold (hmem hu).1 (h.client u (hmem hu).2 server (lookup_stopped hserver))
  · change u ∈ (w.stopped v).procs
    rw [World.stopped_procs]
    split_ifs
    · exact AList.mem_erase.mpr ⟨(hmem hu).1, h.procs u (hmem hu).2⟩
    · exact h.procs u (hmem hu).2

/-- The effect keeps the records of the batch servers. -/
def KeepsRecords (w : World) : Effect → Prop
  | .startServer _ _ v _ _ _ => ∀ q, w.batchOf q ≠ some v
  | .startBroken .. => False
  | .forgetServer .. => False
  | _ => True

theorem Batches.apply (h : Batches w) (hguard : Effect.guard w e) (he : KeepsRecords w e) :
    Batches (Effect.apply w e) := by
  cases e with
  | close p dir => exact h.remove rfl rfl rfl rfl
  | drop p lock => exact h.remove rfl rfl rfl rfl
  | openSession p user s =>
    refine h.of_batchOf (fun q => ?_) rfl rfl rfl
    have hnone : w.batchOf p = none := by
      rw [World.batchOf, (Dict.notMem_iff _ _).mp hguard.1]
      rfl
    obtain ⟨-, pi, _, _, _, -, rfl, -⟩ := hguard
    exact batchOf_keeps (s := ActiveSessions.newSession p pi _ _ _) hnone rfl rfl q
  | count p s n =>
    exact h.of_batchOf (batchOf_keeps (batchOf_of_lookup hguard.1) rfl rfl) rfl rfl rfl
  | watch p s id =>
    exact h.of_batchOf (batchOf_keeps (batchOf_of_lookup hguard) rfl rfl) rfl rfl rfl
  | startServer c s v proc signals controls =>
    obtain ⟨hs, -, hb, hv, -⟩ := hguard
    exact h.start ((batchOf_of_lookup hs).trans hb) hv he
  | startBroken c s v proc signals controls => exact he.elim
  | stopServer c s v => exact h.stop ((batchOf_of_lookup hguard.1).trans hguard.2.2)
  | forgetServer c s v => exact he.elim
  | beginProfile p s uid name =>
    exact h.of_batchOf (batchOf_keeps (batchOf_of_lookup hguard.1) rfl rfl) rfl rfl rfl
  | endProfile p s name =>
    exact h.of_batchOf (batchOf_keeps (batchOf_of_lookup hguard.1) rfl rfl) rfl rfl rfl
  | _ => exact h.of_batchOf (fun _ => rfl) rfl rfl rfl

end Effects

/-! ### Calls -/

section Calls

variable {w₀ w w' : World} {o : Outcomes} {r : Call}

/-- The PID of a new batch server is not recorded, or the client already has a batch server. -/
def NewUnrecorded (c : Pid) (w₀ w : World) : Prop :=
  w.batchOf c ≠ none ∨ ∀ v proc, w₀.outcomes.popen = some (v, proc) → ∀ q, w.batchOf q ≠ some v

/-- What starting a batch server may do, the write mode included. -/
def StartBatchEffect (w : World) (c : Pid) (e : Effect) : Prop :=
  WriteEffect w c e ∨ ∃ s v proc signals controls,
    e = .startServer c s v proc signals controls ∧ w.outcomes.popen = some (v, proc)

variable {e : Effect}

theorem NewUnrecorded.apply {c : Pid} (h : NewUnrecorded c w₀ w)
    (hguard : Effect.guard w e) (he : StartBatchEffect w₀ c e) :
    NewUnrecorded c w₀ (Effect.apply w e) := by
  have hleader : ∀ {q}, w₀.leaderOf c = some q → c ≠ q := by
    intro q hq
    obtain ⟨_, -, -, hne, -⟩ := PlatformService.leaderOf_eq_some.mp hq
    exact hne.symm
  -- a record without a batch server appears or disappears
  have hother : ∀ {w' : World} {q : Pid}, c ≠ q →
      (∀ p, w'.batchOf p = if p = q then none else w.batchOf p) → NewUnrecorded c w₀ w' := by
    intro w' q hne hbatch
    refine h.imp (fun hc => by rwa [hbatch, if_neg hne]) fun hv v proc hp p hb => ?_
    rw [hbatch] at hb
    split_ifs at hb
    exact hv v proc hp p hb
  rcases he with he | ⟨s, v, proc, signals, controls, rfl, -⟩
  · cases e with
    | discard q => exact h
    | drop q lock => exact hother (hleader he.1) fun p => batchOf_erase rfl
    | openSession q u s =>
      obtain ⟨-, pi, _, _, _, -, rfl, -⟩ := hguard
      exact hother (hleader he.1) fun p => batchOf_insert rfl rfl
    | count q s n =>
      have hbatch : ∀ p, (Effect.apply w (.count q s n)).batchOf p = w.batchOf p :=
        batchOf_keeps (batchOf_of_lookup hguard.1) rfl rfl
      simp only [NewUnrecorded, hbatch]
      exact h
    | setAside dir => exact h
    | take q => exact h
    | _ => exact he.elim
  · refine .inl ?_
    rw [batchOf_insert (o := some v) rfl rfl, if_pos rfl]
    simp

/-- A server is started only for a client without one. -/
theorem NewUnrecorded.keepsRecords {c : Pid} (h : NewUnrecorded c w₀ w)
    (hguard : Effect.guard w e) (he : StartBatchEffect w₀ c e) : KeepsRecords w e := by
  rcases he with he | ⟨s, v, proc, signals, controls, rfl, hv⟩
  · cases e <;> first | exact he.elim | trivial
  · obtain ⟨hs, -, hb, -⟩ := hguard
    exact h.resolve_left (by rw [batchOf_of_lookup hs, hb]; simp) v proc hv

/-- The effects of a call that does not start or forget a batch server. -/
def RecordEffect : Effect → Prop
  | .startServer .. => False
  | .startBroken .. => False
  | .forgetServer .. => False
  | _ => True

theorem writeEffect_record {c : Pid} (h : WriteEffect w c e) : RecordEffect e := by
  cases e <;> first | exact h.elim | trivial

/-- A call keeps the records, or starts a batch server for a client without one. -/
theorem effects_batch (h : ¬ Orphans w (.call o r)) (ho : w.outcomes = o) :
    (∀ e, r.effects w e → RecordEffect e) ∨
      ∃ c, NewUnrecorded c w w ∧ ∀ e, r.effects w e → StartBatchEffect w c e := by
  cases r with
  | startBatch c signals controls =>
    by_cases hact : w.active c = true ∧ w.allowsBatch c signals controls ∧ w.batchOf c = none
    · obtain ⟨hact, hallows, hnone⟩ := hact
      refine .inr ⟨c, .inr fun v proc hv q hq => ?_, ?_⟩
      · exact h ⟨hact, hallows, hnone, v, proc, ho ▸ hv, .inr ⟨q, hq⟩⟩
      · rintro e (⟨hn, -⟩ | ⟨-, -, ⟨-, he⟩ | he⟩)
        · rw [hact] at hn
          cases hn
        · exact .inl he
        · cases e with
          | startServer c' s v proc sig ctl =>
            obtain ⟨rfl, rfl, rfl, -, hv⟩ := he
            exact .inr ⟨s, v, proc, _, _, rfl, hv⟩
          | startBroken c' s v proc sig ctl =>
            obtain ⟨-, -, -, -, hv, hkey⟩ := he
            exact absurd ⟨hact, hallows, hnone, v, proc, ho ▸ hv, .inl (ho ▸ hkey)⟩ h
          | _ => exact he.elim
    · refine .inl ?_
      rintro e (⟨-, rfl | ⟨dir, rfl⟩⟩ | ⟨hc, hallows, ⟨-, he⟩ | he⟩)
      · trivial
      · trivial
      · exact writeEffect_record he
      · cases e with
        | startServer c' s v proc sig ctl => exact hact ⟨hc, hallows, he.2.2.2.1⟩
        | startBroken c' s v proc sig ctl => exact hact ⟨hc, hallows, he.2.2.2.1⟩
        | _ => exact he.elim
  | stopBatch c v =>
    refine .inl ?_
    rintro e (⟨-, rfl | ⟨dir, rfl⟩⟩ | ⟨hact, he⟩)
    · trivial
    · trivial
    · cases e with
      | forgetServer c' s v' =>
        obtain ⟨-, hv, hb⟩ := he
        exact absurd ⟨hact, by rw [hb]; simp, by rw [hb]; simpa using hv⟩ h
      | stopServer c' s v' => trivial
      | _ => exact he.elim
  | _ =>
    refine .inl fun e he => ?_
    cases e <;> first | trivial | simp [Call.effects, OnClient, OpenEffect, WriteEffect,
      CloseEffect, ProfileEffect] at he

theorem RecordEffect.keepsRecords (h : RecordEffect e) : KeepsRecords w e := by
  cases e <;> first | exact h.elim | trivial

theorem Batches.call (hkept : Kept w) (h : Batches w) (hC : ¬ Orphans w (.call o r))
    (hst : service.step w (.call o r) w') : Batches w' := by
  obtain ⟨-, -, -, hwithin⟩ := call_spec hkept hst
  have hC' : ¬ Orphans (w.withOutcomes o) (.call o r) := by
    intro hn
    cases r <;> exact hC hn
  have hstart : Batches (w.withOutcomes o) := ⟨h.1, h.2, h.3, h.4⟩
  rcases effects_batch hC' rfl with hrecord | ⟨c, hnew, heffects⟩
  · refine (hwithin.steps.mono hrecord).invariant (I := Batches) hstart ?_ ?_
    · exact fun _ _ _ h => ⟨h.1, h.2, h.3, h.4⟩
    · exact fun _ _ h he hguard => h.apply hguard he.keepsRecords
  · refine ((hwithin.steps.mono heffects).invariant
      (I := fun w' => Batches w' ∧ NewUnrecorded c (w.withOutcomes o) w') ⟨hstart, hnew⟩ ?_ ?_).1
    · exact fun _ _ _ h => ⟨⟨h.1.1, h.1.2, h.1.3, h.1.4⟩, h.2⟩
    · rintro w'' e ⟨hbatches, hnew⟩ he hguard
      exact ⟨hbatches.apply hguard (hnew.keepsRecords hguard he), hnew.apply hguard he⟩

/-! ### Closing a session -/

/-- The batch server `v` has ended, or the session `s` of `p` goes on and records it. -/
def EndedOrKept (p v : Pid) (s : Session) (w : World) : Prop :=
  (v ∉ w.servers ∧ v ∉ w.batchSubp) ∨
    (v ∈ w.batchSubp ∧ ∃ t, w.sessions.lookup p = some t ∧ s.Keeps t ∧ t.batchServer = some v)

/-- The effect does not start the batch server `v`, or forget it. -/
def NotStarting (v : Pid) : Effect → Prop
  | .startServer _ _ u _ _ _ => u ≠ v
  | .startBroken _ _ u _ _ _ => u ≠ v
  | .forgetServer .. => False
  | _ => True

/-- A batch server that a session records ends with the session. -/
theorem EndedOrKept.remove {p q v : Pid} {s : Session} (h : EndedOrKept p v s w)
    (hsessions : w'.sessions = w.sessions.erase q)
    (hsubp : w'.batchSubp = w.subpWithout (w.batchOf q))
    (hservers : w'.servers = World.without w.servers (w.batchOf q)) : EndedOrKept p v s w' := by
  have hended : w.batchOf q = some v → EndedOrKept p v s w' := by
    intro hq
    refine .inl ⟨?_, ?_⟩
    · rw [hservers, mem_without]
      exact fun hv => hv.1 hq
    · rw [hsubp, mem_subpWithout]
      exact fun hv => hv.1 hq
  rcases h with ⟨hserver, hsub⟩ | ⟨hsub, t, ht, hkeeps, hb⟩
  · refine .inl ⟨?_, ?_⟩
    · rw [hservers, mem_without]
      exact fun hv => hserver hv.2
    · rw [hsubp, mem_subpWithout]
      exact fun hv => hsub hv.2
  · by_cases hq : w.batchOf q = some v
    · exact hended hq
    · have hne : p ≠ q := fun heq => hq (heq ▸ (batchOf_of_lookup ht).trans hb)
      refine .inr ⟨?_, t, ?_, hkeeps, hb⟩
      · rw [hsubp, mem_subpWithout]
        exact ⟨hq, hsub⟩
      · rw [hsessions, Dict.lookup_erase_eq, if_neg hne]
        exact ht

theorem EndedOrKept.record {p q v : Pid} {s u u' : Session} (h : EndedOrKept p v s w)
    (hu : w.sessions.lookup q = some u) (hsessions : w'.sessions = w.sessions.insert q u')
    (hkeeps : u.Keeps u') (hb : u'.batchServer = u.batchServer) (hsubp : w'.batchSubp = w.batchSubp)
    (hservers : w'.servers = w.servers) : EndedOrKept p v s w' := by
  unfold EndedOrKept at *
  rw [hsubp, hservers, hsessions]
  refine h.imp id fun ⟨hsub, t, ht, hkeeps', hbt⟩ => ⟨hsub, ?_⟩
  rw [Dict.lookup_insert_eq]
  split_ifs with hq
  · rw [hq, hu] at ht
    cases ht
    exact ⟨u', rfl, hkeeps'.trans hkeeps, hb.trans hbt⟩
  · exact ⟨t, ht, hkeeps', hbt⟩

theorem EndedOrKept.apply {p v : Pid} {s : Session} (h : EndedOrKept p v s w)
    (hguard : Effect.guard w e) (he : NotStarting v e) :
    EndedOrKept p v s (Effect.apply w e) := by
  cases e with
  | close q dir => exact h.remove rfl rfl rfl
  | drop q lock => exact h.remove rfl rfl rfl
  | openSession q user u =>
    refine h.imp id fun ⟨hsub, t, ht, hkeeps, hb⟩ => ⟨hsub, t, ?_, hkeeps, hb⟩
    change (w.sessions.insert q u).lookup p = some t
    rw [Dict.lookup_insert_eq, if_neg, ht]
    rintro rfl
    exact hguard.1 ((Dict.mem_iff _ _).mpr ⟨t, ht⟩)
  | count q u n => exact h.record hguard.1 rfl .of_members rfl rfl rfl
  | watch q u id => exact h.record hguard rfl .of_members rfl rfl rfl
  | startServer c u v' proc signals controls =>
    rcases h with ⟨hserver, hsub⟩ | ⟨hsub, t, ht, hkeeps, hb⟩
    · refine .inl ⟨fun hv => ?_, fun hv => ?_⟩
      · exact hserver (((AList.mem_insert _).mp hv).resolve_left (Ne.symm he))
      · exact hsub ((mem_insert.mp hv).resolve_left (Ne.symm he))
    · refine .inr ⟨mem_insert_of_mem hsub, t, ?_, hkeeps, hb⟩
      change (w.sessions.insert c _).lookup p = some t
      rw [Dict.lookup_insert_eq, if_neg, ht]
      rintro rfl
      rw [hguard.1] at ht
      cases ht
      exact absurd hb (by rw [hguard.2.2.1]; simp)
  | startBroken c u v' proc signals controls =>
    rcases h with ⟨hserver, hsub⟩ | ⟨hsub, hsession⟩
    · exact .inl ⟨hserver, fun hv => hsub ((mem_insert.mp hv).resolve_left (Ne.symm he))⟩
    · exact .inr ⟨mem_insert_of_mem hsub, hsession⟩
  | stopServer c u v' =>
    have hstopped : ∀ {x}, x ∈ (Effect.apply w (.stopServer c u v')).servers →
        x ∈ w.servers := by
      intro x hx
      obtain ⟨server, hserver⟩ := (Dict.mem_iff _ _).mp hx
      exact (Dict.mem_iff _ _).mpr ⟨server, lookup_stopped hserver⟩
    rcases h with ⟨hserver, hsub⟩ | ⟨hsub, t, ht, hkeeps, hb⟩
    · exact .inl ⟨fun hv => hserver (hstopped hv), fun hv => hsub (mem_erase.mp hv).2⟩
    · by_cases hv : v = v'
      · subst hv
        refine .inl ⟨fun hv => ?_, fun hv => (mem_erase.mp hv).1 rfl⟩
        change v ∈ (w.stopped v).servers at hv
        rw [World.stopped_servers, if_pos (.inl hsub), AList.mem_erase] at hv
        exact hv.1 rfl
      · refine .inr ⟨mem_erase.mpr ⟨hv, hsub⟩, t, ?_, hkeeps, hb⟩
        change (w.sessions.insert c _).lookup p = some t
        rw [Dict.lookup_insert_eq, if_neg, ht]
        rintro rfl
        rw [hguard.1] at ht
        cases ht
        exact hv (Option.some.inj (hb.symm.trans hguard.2.2))
  | forgetServer c u v' => exact he.elim
  | beginProfile q u uid name => exact h.record hguard.1 rfl .of_members rfl rfl rfl
  | endProfile q u name => exact h.record hguard.1 rfl .of_members rfl rfl rfl
  | _ => exact h

theorem Batches.closed (hkept : Kept w) (h : Batches w) (hC : ¬ Orphans w (.call o r))
    (hst : service.step w (.call o r) w') {p v : Pid} {s : Session}
    (hs : w.sessions.lookup p = some s) (hb : s.batchServer = some v) (hv : v ∈ w.batchSubp)
    (hclosed : ∀ t, w'.sessions.lookup p = some t → ¬ s.SameClient t) :
    v ∉ w'.servers ∧ v ∉ w'.batchSubp := by
  obtain ⟨-, hfresh, -, hwithin⟩ := call_spec hkept hst
  have hC' : ¬ Orphans (w.withOutcomes o) (.call o r) := by
    intro hn
    cases r <;> exact hC hn
  have hnot : ∀ e, r.effects (w.withOutcomes o) e → NotStarting v e := by
    intro e he
    rcases effects_batch hC' rfl with hrecord | ⟨c, -, heffects⟩
    · have hrec := hrecord e he
      cases e <;> first | exact hrec.elim | trivial
    · rcases heffects e he with hwrite | ⟨_, u, proc, _, _, rfl, hu⟩
      · cases e <;> first | exact hwrite.elim | trivial
      · rintro rfl
        exact (PlatformService.freshPopen_iff hfresh hu).1 (h.procs u hv)
  have hend := (hwithin.steps.mono hnot).invariant (I := EndedOrKept p v s)
    (.inr ⟨hv, s, hs, .refl s, hb⟩) (fun _ _ _ h => h) fun _ _ h he hguard => h.apply hguard he
  refine hend.resolve_right ?_
  rintro ⟨-, t, ht, hkeeps, -⟩
  exact hclosed t ht hkeeps.client

end Calls

/-! ### All runs -/

variable {w w' : World}

theorem Batches.around (h : Batches w) (ha : Around w w') : Batches w' := by
  have hservers := ha.servers
  have hprocs := ha.children
  obtain ⟨procs, servers, settings, users, now, rfl⟩ := ha.rest
  exact ⟨h.recorded, h.unique, fun v hv server hs => h.client v hv server (hservers v server hs),
    fun v hv => hprocs v hv (h.procs v hv)⟩

theorem batchSubp_restart {o : Outcomes} (hkept : Kept w)
    (hst : service.step w (.restart o) w') : w'.batchSubp = ∅ := by
  have hkeep : ∀ {A : Effect → Prop} {w₁ w₂ : World}, Restarted (w.restarting o) w₁ →
      Steps A w₁ w₂ → (∀ e, A e → OrDrop (RestartEffect w₁) e) → w₂.batchSubp = ∅ := by
    intro A w₁ w₂ hr hsteps hA
    refine hsteps.invariant (I := fun w' => w'.batchSubp = ∅) ?_ (fun _ _ _ h => h) ?_
    · obtain ⟨_, _, _, _, -, rfl⟩ := hr.rest
      rfl
    · intro w'' e hempty he hguard
      rcases hA e he with he | ⟨p, lock, rfl⟩
      · cases e <;> first | exact he.elim | exact hempty
      · change w''.subpWithout _ = ∅
        unfold World.subpWithout
        rw [hempty]
        cases w''.batchOf p <;> rfl
  obtain ⟨w₁, w₂, hr, ⟨rfl, hwithin, -⟩ | ⟨rfl, -, hwithin⟩⟩ := restart_spec hkept hst
  · change w₂.batchSubp = ∅
    exact hkeep hr hwithin.steps fun e he => .inl he
  · change w₂.batchSubp = ∅
    exact hkeep hr hwithin.steps fun e he => he

theorem Batches.of_empty {w : World} (h : w.batchSubp = ∅) : Batches w := by
  constructor <;> intro v hv <;> rw [h] at hv <;> cases hv

theorem Batches.step {a : Action} (hkept : Kept w) (h : Batches w)
    (hC : ¬ Orphans w a) (hst : service.step w a w') : Batches w' := by
  cases a with
  | call o r => exact h.call hkept hC hst
  | restart o => exact .of_empty (batchSubp_restart hkept hst)
  | _ => exact h.around (around_spec rfl hst)

theorem Batches.tracked {w : World} (hkept : Kept w) (h : Batches w) : Tracked w where
  recorded v hv := by
    obtain ⟨p, hp⟩ := h.recorded v hv
    exact ⟨p, hp, fun q hq => h.unique v hv q p hq hp⟩
  one u hu v hv server server' hserver hserver' hclient := by
    have hu' := h.client u hu server hserver
    rw [hclient, h.client v hv server' hserver'] at hu'
    exact (Option.some.inj hu').symm
  closed o r w' hC hst p s v hs hb hv := h.closed hkept hC hst hs hb hv

/-- Every running batch server is a key of `_batch_subp`. -/
def ServersTracked (w : World) : Prop := ∀ v, v ∈ w.servers → v ∈ w.batchSubp

theorem ServersTracked.apply {w : World} {e : Effect} (h : ServersTracked w) :
    ServersTracked (Effect.apply w e) := by
  have hremoved : ∀ p, ServersTracked (w.removed p) := by
    intro p v hv
    rw [World.removed_servers, mem_without] at hv
    rw [World.removed_batchSubp, mem_subpWithout]
    exact ⟨hv.1, h v hv.2⟩
  cases e with
  | close p dir => exact hremoved p
  | drop p lock => exact hremoved p
  | startServer c s v proc signals controls =>
    intro u hu
    exact mem_insert.mpr (((AList.mem_insert _).mp hu).imp id (h u))
  | startBroken c s v proc signals controls =>
    exact fun u hu => mem_insert_of_mem (h u hu)
  | stopServer c s v =>
    intro u hu
    change u ∈ (w.stopped v).servers at hu
    rw [World.stopped_servers] at hu
    refine mem_erase.mpr ?_
    split_ifs at hu with hv
    · rw [AList.mem_erase] at hu
      exact ⟨hu.1, h u hu.2⟩
    · refine ⟨?_, h u hu⟩
      rintro rfl
      exact hv (.inl (h u hu))
  | _ => exact h

theorem ServersTracked.step {a : Action} (hkept : Kept w) (h : ServersTracked w)
    (ha : ∀ o, a ≠ .restart o) (hst : service.step w a w') : ServersTracked w' := by
  have haround : Around w w' → ServersTracked w' := by
    intro hw v hv
    obtain ⟨server, hserver⟩ := (Dict.mem_iff _ _).mp hv
    have hold := h v ((Dict.mem_iff _ _).mpr ⟨server, hw.servers v server hserver⟩)
    obtain ⟨procs, servers, settings, users, now, rfl⟩ := hw.rest
    exact hold
  cases a with
  | call o r =>
    obtain ⟨-, -, -, hwithin⟩ := call_spec hkept hst
    exact hwithin.steps.invariant (I := ServersTracked) h (fun _ _ _ h => h)
      fun _ _ h _ _ => h.apply
  | restart o => exact absurd rfl (ha o)
  | _ => exact haround (around_spec rfl hst)

/-- **No orphan batch server.** In every run whose steps do not orphan a batch server, each key of
`_batch_subp` is tracked; without a restart, the keys are all the batch servers that run. -/
theorem tracked_of_reachable {C : World → Action → Prop} {w₀ w : World} (hw₀ : Fresh w₀)
    (hC : ∀ w a, C w a → ¬ Orphans w a) (h : service.ReachableIf C w₀ w) :
    Tracked w ∧ ((∀ w o, ¬ C w (.restart o)) → ∀ v, v ∈ w.servers → v ∈ w.batchSubp) := by
  have hkept : ∀ t, service.ReachableIf C w₀ t → Kept t := fun t ht => kept_of_reachable hw₀ ht
  refine ⟨Batches.tracked (hkept w h) ?_, fun hrestart => ?_⟩
  · exact h.invariant_of hkept (.of_empty hw₀.batchSubp)
      fun t a _ hk hb hCa hst => hb.step hk (hC t a hCa) hst
  · refine h.invariant_of (I := ServersTracked) hkept (fun v hv => ?_) fun t a _ hk hs hCa hst => ?_
    · rw [hw₀.servers] at hv
      exact absurd hv (AList.notMem_empty v)
    · refine hs.step hk (fun o => ?_) hst
      rintro rfl
      exact hrestart t o hCa

/-! ### A mismatching PID -/

/-- The child has opened a session. -/
def beforeBatch : World := leaderAndChild.afterCall (.succeed none) (.openSession "user" 11)

/-- The child has started a batch server. -/
def withBatch : World :=
  beforeBatch.afterCall (.succeed (some (100, ⟨0, 0, 5, 1, true⟩)))
    (.startBatch 11 [(0, 0, "SIGNAL")] [])

theorem tracked_withBatch : withBatch.batchSubp = {100} ∧ Tracked withBatch := by
  have hfresh : Fresh leaderAndChild := World.fresh_small _ _
  have hopen : service.step leaderAndChild _ beforeBatch := step_call rfl rfl
  have hstart : service.step beforeBatch _ withBatch := step_call (by decide) (by decide)
  refine ⟨by decide, (tracked_of_reachable (C := fun w a => ¬ Orphans w a) hfresh
    (fun _ _ h => h) (.head (by exact fun h => h) hopen (.head ?_ hstart (.refl _)))).1⟩
  rintro ⟨-, -, -, v, proc, hv, hkey | ⟨q, hq⟩⟩
  · cases hkey
  · have hsessions : beforeBatch.sessions.keys = [11] := by decide
    have hmem := mem_of_batchOf hq
    rw [AList.mem_keys, hsessions, List.mem_singleton] at hmem
    rw [hmem, show beforeBatch.batchOf 11 = none by decide] at hq
    cases hq

/-- The child starts a batch server, and asks to stop a process that is not its batch server. -/
def stopsAnother : List Action :=
  [.call (.succeed none) (.openSession "user" 11),
    .call (.succeed (some (100, ⟨0, 0, 5, 1, true⟩))) (.startBatch 11 [(0, 0, "SIGNAL")] []),
    .call (.succeed none) (.stopBatch 11 101)]

/-- A batch server that was started loses its record when its client asks to stop another one. -/
theorem mismatch_orphans : ¬ ∀ w₀ w, Fresh w₀ → service.Reachable w₀ w → Tracked w := by
  intro hall
  have hrun : (Lts.run World.next leaderAndChild stopsAnother).map
      (fun w => (w.batchSubp, w.sessions.keys, w.batchOf 11)) = some ({100}, [11], none) := by
    decide
  obtain ⟨w, hw, heq⟩ := Option.map_eq_some_iff.mp hrun
  simp only [Prod.mk.injEq] at heq
  obtain ⟨hsubp, hkeys, hbatch⟩ := heq
  have htracked := hall _ w (World.fresh_small _ _) (Lts.reachable_of_run hw)
  obtain ⟨p, hp, -⟩ := htracked.recorded 100 (by rw [hsubp]; simp)
  have hmem := mem_of_batchOf hp
  rw [AList.mem_keys, hkeys, List.mem_singleton] at hmem
  change w.batchOf p = some 100 at hp
  rw [hmem, hbatch] at hp
  cases hp

end Geopm
