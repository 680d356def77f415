import Geopm.Service.Runs

/-!
# The owner of the profiler lock

* `ProfilerTracked` : the owner of the profiler lock has a session, and when it dies the watch frees
  the lock for everyone;
* `Untracks` : the actions that leave the lock with a PID that has no session;
* `profilerTracked_of_reachable` : in every run without them, the owner is tracked.

`get_profile_pids` takes the lock for clients without a session; nothing watches them.
-/

namespace Geopm

open Prog

/-- The owner of the profiler lock has a session. -/
def ProfilerOpen (w : World) : Prop := ∀ p, w.profilerLock = some p → p ∈ w.sessions

/-- What is known about the profiler lock while the service is running. -/
structure ProfilerTracked (w : World) : Prop where
  session : ProfilerOpen w
  /-- When the owner has died, the watch on it frees the lock, and every later `get_profile_pids`
  succeeds. -/
  freed : ∀ p o, w.profilerLock = some p → p ∉ w.procs →
    (w.afterCall o (.checkClient p)).profilerLock = none ∧
      ∀ o' q name, ∃ pids w',
        PlatformService.getProfilePids (.pid q) name
          ((w.afterCall o (.checkClient p)).withOutcomes o') = .ok pids w'

/-- `_write_mode` of `c` drops the stale session of its leader, which owns the profiler lock. -/
def DropsProfiler (w : World) (c : Pid) : Prop :=
  w.controlLock = none ∧ ∃ q, w.leaderOf c = some q ∧ w.stale q = true ∧ w.userOf q ≠ none ∧
    w.profilerLock = some q

/-- The action leaves the profiler lock with a PID that has no session. -/
def Untracks (w : World) : Action → Prop
  | .call _ (.getProfilePids arg _) =>
      w.profilerLock = none ∧ ∃ p, arg.toInt? = some p ∧ p ∉ w.sessions
  | .call _ (.writeControl c name _ _ _) =>
      w.active c = true ∧ w.allowsControl c name ∧ DropsProfiler w c
  | .call _ (.restoreControl c) => w.active c = true ∧ DropsProfiler w c
  | .call _ (.startBatch c signals controls) =>
      w.active c = true ∧ w.allowsBatch c signals controls ∧ controls ≠ [] ∧ DropsProfiler w c
  | _ => False

/-! ### Effects -/

/-- The effects of the calls that do not take the profiler lock. -/
def KeepsProfiler (w : World) : Effect → Prop
  | .drop q _ => w.profilerLock ≠ some q
  | .lockProfiler _ => False
  | _ => True

section Effects

variable {w w' : World} {e : Effect}

/-- The profiler lock changes hands only when it is taken or released. -/
theorem profilerLock_apply (he : KeepsProfiler w e) {p : Pid}
    (hp : (Effect.apply w' e).profilerLock = some p) :
    w'.profilerLock = some p ∧ ∀ dir, e ≠ .close p dir := by
  cases e with
  | close q dir =>
    change (if w'.profilerLock = some q then none else w'.profilerLock) = some p at hp
    split_ifs at hp with hq
    refine ⟨hp, fun dir' heq => ?_⟩
    cases heq
    exact hq hp
  | lockProfiler q => exact he.elim
  | unlockProfiler => cases hp
  | _ => exact ⟨hp, fun _ heq => by cases heq⟩

theorem ProfilerOpen.apply (h : ProfilerOpen w') (hsub : ∀ p, w'.profilerLock = some p →
    w.profilerLock = some p) (he : KeepsProfiler w e) :
    ProfilerOpen (Effect.apply w' e) ∧
      ∀ p, (Effect.apply w' e).profilerLock = some p → w.profilerLock = some p := by
  refine ⟨fun p hp => ?_, fun p hp => hsub p (profilerLock_apply he hp).1⟩
  obtain ⟨hlock, hclose⟩ := profilerLock_apply he hp
  rcases mem_apply (e := e) (h p hlock) with hmem | ⟨dir, heq⟩ | ⟨lock, rfl⟩
  · exact hmem
  · exact absurd heq (hclose dir)
  · exact absurd (hsub p hlock) he

end Effects

/-! ### Calls -/

section Calls

variable {w w' : World} {o : Outcomes} {r : Call}

theorem effects_profiler (h : ¬ Untracks w (.call o r)) :
    (∀ e, r.effects w e → ∃ p, p ∈ w.sessions ∧ e = .lockProfiler p) ∨
      ∀ e, r.effects w e → KeepsProfiler w e := by
  have hwrite : ∀ {c e}, ¬ DropsProfiler w c → WriteEffect w c e → KeepsProfiler w e := by
    intro c e hdrops he
    cases e with
    | drop q lock => exact fun hq => hdrops ⟨he.2.2.2.1, q, he.1, he.2.1, he.2.2.1, hq⟩
    | _ => first | exact he.elim | trivial
  have hclient : ∀ {c : Pid} {A : Effect → Prop}, (w.active c = true → ∀ e, A e →
      KeepsProfiler w e) → ∀ e, OnClient w c A e → KeepsProfiler w e := by
    rintro c A hA e (⟨-, rfl | ⟨dir, rfl⟩⟩ | ⟨hact, he⟩)
    · trivial
    · trivial
    · exact hA hact e he
  cases r with
  | getProfilePids arg name =>
    refine .inl ?_
    rintro e ⟨p, hp, hfree, rfl⟩
    exact ⟨p, not_not.mp fun hmem => h ⟨hfree, p, hp, hmem⟩, rfl⟩
  | startBatch c signals controls =>
    refine .inr (hclient fun hact e he => ?_)
    obtain ⟨hallows, ⟨hne, he⟩ | he⟩ := he
    · exact hwrite (fun hdrops => h ⟨hact, hallows, hne, hdrops⟩) he
    · cases e <;> first | exact he.elim | trivial
  | writeControl c name domain domainIdx setting =>
    refine .inr (hclient fun hact e he => ?_)
    obtain ⟨hallows, he | ⟨s, rfl⟩ | ⟨st, rfl⟩⟩ := he
    · exact hwrite (fun hdrops => h ⟨hact, hallows, hdrops⟩) he
    · trivial
    · trivial
  | restoreControl c =>
    refine .inr (hclient fun hact e he => ?_)
    obtain he | ⟨st, rfl⟩ := he
    · exact hwrite (fun hdrops => h ⟨hact, hdrops⟩) he
    · trivial
  | _ =>
    refine .inr fun e he => ?_
    cases e <;> first | trivial | simp [Call.effects, OnClient, OpenEffect, CloseEffect,
      StopEffect, ProfileEffect] at he

theorem ProfilerOpen.call (hkept : Kept w) (h : ProfilerOpen w)
    (hC : ¬ Untracks w (.call o r)) (hst : service.step w (.call o r) w') : ProfilerOpen w' := by
  obtain ⟨-, -, -, hwithin⟩ := call_spec hkept hst
  have hC' : ¬ Untracks (w.withOutcomes o) (.call o r) := by
    intro hn
    cases r <;> exact hC hn
  rcases effects_profiler hC' with hlocks | hkeeps
  · refine ((hwithin.steps.mono hlocks).invariant
      (I := fun w' => ProfilerOpen w' ∧ w'.sessions = w.sessions) ⟨h, rfl⟩
      (fun _ _ _ h => h) ?_).1
    rintro u e ⟨-, hsessions⟩ ⟨p, hp, rfl⟩ -
    refine ⟨fun q hq => ?_, hsessions⟩
    cases hq
    change p ∈ u.sessions
    rw [hsessions]
    exact hp
  · refine ((hwithin.steps.mono hkeeps).invariant (I := fun w' => ProfilerOpen w' ∧
      ∀ p, w'.profilerLock = some p → w.profilerLock = some p) ⟨h, fun _ hp => hp⟩
      (fun _ _ _ h => h) ?_).1
    rintro u e ⟨hopen, hsub⟩ he -
    exact hopen.apply (w := w.withOutcomes o) hsub he

/-! ### A dead owner -/

/-- `check_client` of a dead client frees the profiler lock. -/
theorem checkClient_frees {p : Pid} (hkept : Kept w) (hp : p ∈ w.sessions) (hdead : p ∉ w.procs)
    (hlock : w.profilerLock = some p) :
    (w.afterCall o (.checkClient p)).profilerLock = none ∧
      (w.afterCall o (.checkClient p)).isFileActive = false := by
  have hrun : wp (Call.checkClient p).run
      (fun _ w' => w'.profilerLock = none ∧ w'.isFileActive = false)
      (fun _ w' => w'.profilerLock = none ∧ w'.isFileActive = false) (w.withOutcomes o) := by
    rw [Call.run, wp_map, PlatformService.checkClient, wp_bind, ActiveSessions.wp_getClients,
      wp_bind, wp_pidExists, if_pos, wp_bind]
    · refine PlatformService.wp_closeSessionCompletely
        (w := w.withOutcomes o) ⟨hkept.sane.profiles, hkept.sane.servers⟩ hkept.isFileActive
        fun j dir _ => ?_
      refine ⟨?_, hkept.isFileActive⟩
      change (if w.profilerLock = some p then none else w.profilerLock) = none
      rw [if_pos hlock]
    · rw [mem_pySorted, ← AList.mem_keys, decide_eq_false_iff_not]
      exact ⟨hp, hdead⟩
  exact wp_final.mp hrun

/-- `get_profile_pids` returns when the profiler lock is free. -/
theorem getProfilePids_returns {q : Pid} {name : String} (hlock : w.profilerLock = none)
    (hactive : w.isFileActive = false) :
    ∃ pids w', PlatformService.getProfilePids (.pid q) name w = .ok pids w' := by
  have hrun : wp (PlatformService.getProfilePids (.pid q) name) (fun _ _ => True)
      (fun _ _ => False) w := by
    rw [PlatformService.getProfilePids, wp_bind]
    refine WriteLock.wp_withLock hactive ?_
    rw [wp_bind, WriteLock.wp_tryLock_none]
    simp only [World.lockFile, World.setActive_profilerLock, hlock, Option.map_none]
    rw [wp_bind, WriteLock.tryLock, wp_bind, wp_get]
    simp only [World.lockFile, World.setActive_profilerLock, hlock, PidArg.toInt?]
    rw [wp_bind, wp_modify]
    refine ⟨rfl, ?_⟩
    rw [wp_bind, ActiveSessions.getProfilePids, wp_bind, wp_get, wp_pure]
    split <;> trivial
  unfold wp at hrun
  cases hres : PlatformService.getProfilePids (.pid q) name w with
  | ok pids w' => exact ⟨pids, w', rfl⟩
  | error e w' =>
    rw [hres] at hrun
    exact hrun.elim

end Calls

theorem ProfilerOpen.tracked {w : World} (hkept : Kept w) (h : ProfilerOpen w) :
    ProfilerTracked w := by
  refine ⟨h, fun p o hp hdead => ?_⟩
  obtain ⟨hfree, hactive⟩ := checkClient_frees (o := o) hkept (h p hp) hdead hp
  exact ⟨hfree, fun o' q name => getProfilePids_returns hfree hactive⟩

/-! ### All runs -/

theorem ProfilerOpen.step {w w' : World} {a : Action} (hkept : Kept w)
    (h : w.up = true → ProfilerOpen w) (hC : ¬ Untracks w a) (hst : service.step w a w')
    (hup : w'.up = true) : ProfilerOpen w' := by
  have haround : Around w w' → ProfilerOpen w' := by
    intro hw
    obtain ⟨procs, servers, settings, users, now, rfl⟩ := hw.rest
    exact h hup
  cases a with
  | call o r => exact (h (call_spec hkept hst).1).call hkept hC hst
  | restart o =>
    obtain ⟨w₁, w₂, -, ⟨rfl, -, -, howner⟩ | ⟨rfl, -⟩⟩ := restart_spec hkept hst
    · intro p hp
      obtain ⟨s, _, hs, -, -⟩ := ActiveSessions.active_iff.mp (howner p hp)
      exact (Dict.mem_iff _ _).mpr ⟨s, hs⟩
    · cases hup
  | _ => exact haround (around_spec rfl hst)

/-- **The owner of the profiler lock is tracked.** In every run without an action that leaves the
profiler lock with a PID that has no session, its owner has a session whenever the service is
running, and the watch frees the lock when the owner has died. -/
theorem profilerTracked_of_reachable {w₀ w : World} (hw₀ : Fresh w₀)
    (h : service.ReachableIf (fun w a => ¬ Untracks w a) w₀ w) (hup : w.up = true) :
    ProfilerTracked w := by
  refine ProfilerOpen.tracked (kept_of_reachable hw₀ h) ?_
  refine h.invariant_of (I := fun w => w.up = true → ProfilerOpen w)
    (fun _ ht => kept_of_reachable hw₀ ht) (fun _ p hp => ?_)
    (fun t a t' hkept hopen hC hst hup => ProfilerOpen.step hkept hopen hC hst hup) hup
  rw [hw₀.profilerLock] at hp
  cases hp

/-! ### A profiler without a session -/

/-- The child has opened a session, and asks for the PIDs of a profile. -/
def childProfiles : World :=
  (leaderAndChild.afterCall (.succeed none) (.openSession "user" 11)).afterCall (.succeed none)
    (.getProfilePids (.pid 11) "profile")

theorem profilerTracked_child :
    childProfiles.profilerLock = some 11 ∧ ProfilerTracked childProfiles := by
  have hfresh : Fresh leaderAndChild := World.fresh_small _ _
  have hopen : service.step leaderAndChild _ _ :=
    step_call (o := .succeed none) (r := .openSession "user" 11) rfl rfl
  have hprofile : service.step _ _ childProfiles := step_call (by decide) (by decide)
  refine ⟨by decide, profilerTracked_of_reachable hfresh
    (.head (by exact fun h => h) hopen (.head ?_ hprofile (.refl _))) (by decide)⟩
  rintro ⟨-, p, hp, hmem⟩
  cases hp
  exact hmem (by decide)

/-- A client without a session takes the profiler lock. -/
theorem profiler_without_session :
    ¬ ∀ w₀ w, Fresh w₀ → service.Reachable w₀ w → w.up = true → ProfilerTracked w := by
  intro hall
  have hrun : (Lts.run World.next leaderAndChild
      [.call (.succeed none) (.getProfilePids (.pid 11) "profile")]).map
      (fun w => (w.up, w.profilerLock, w.sessions.keys)) = some (true, some 11, []) := by decide
  obtain ⟨w, hw, heq⟩ := Option.map_eq_some_iff.mp hrun
  simp only [Prod.mk.injEq] at heq
  obtain ⟨hup, hlock, hkeys⟩ := heq
  have hmem := (hall _ w (World.fresh_small _ _) (Lts.reachable_of_run hw) hup).session 11 hlock
  rw [AList.mem_keys, hkeys] at hmem
  cases hmem

end Geopm
