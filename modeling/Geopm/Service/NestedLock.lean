import Geopm.Service.Runs

/-!
# The lock file is entered once at a time

* `Nests` : the actions in which a lock context is entered inside another one;
* `oneContext_of_reachable` : without them, no context is ever entered inside another one, and the
  service always starts.

A call nests when it opens the session of a leader that has a stale session; the constructor nests
when it reads back a stale session of the owner of a lock.
-/

namespace Geopm

/-- The service is running, and has entered lock contexts one at a time. -/
structure OneContext (w : World) : Prop where
  up : w.up = true
  isFileActive : w.isFileActive = false
  nested : w.nested = 0

/-- `_write_mode` of `c` will find a stale session of the session leader: the lock is free, and
the leader has a user name but is no longer the process that opened its session. -/
def StaleLeader (w : World) (c : Pid) : Prop :=
  w.controlLock = none ∧ ∃ q, w.leaderOf c = some q ∧ w.stale q = true ∧ w.userOf q ≠ none

/-- The constructor will read back a stale session of the owner of a lock. -/
def LoadsStaleOwner (w : World) : Prop :=
  ∃ p s pi, (w.controlLock = some p ∨ w.profilerLock = some p) ∧ w.loaded p = some s ∧
    w.procs.lookup p = some pi ∧ World.sameProcess s pi = false

/-- The action enters a lock context inside another one. -/
def Nests (w : World) : Action → Prop
  | .call _ (.writeControl c name _ _ _) =>
      w.active c = true ∧ w.allowsControl c name ∧ StaleLeader w c
  | .call _ (.restoreControl c) => w.active c = true ∧ StaleLeader w c
  | .call _ (.startBatch c signals controls) =>
      w.active c = true ∧ w.allowsBatch c signals controls ∧ controls ≠ [] ∧ StaleLeader w c
  | .restart _ => LoadsStaleOwner w
  | _ => False

/-- The effect does not enter a nested lock context. -/
def NotNested : Effect → Prop
  | .drop _ _ => False
  | _ => True

theorem nested_apply {w : World} {e : Effect} (he : NotNested e) :
    (Effect.apply w e).nested = w.nested ∧ (Effect.apply w e).up = w.up := by
  cases e <;> first | exact he.elim | exact ⟨rfl, rfl⟩

theorem nested_steps {A : Effect → Prop} {w w' : World} (h : Steps A w w')
    (hA : ∀ e, A e → NotNested e) : w'.nested = w.nested ∧ w'.up = w.up := by
  refine h.invariant (I := fun w' => w'.nested = w.nested ∧ w'.up = w.up) ⟨rfl, rfl⟩
    (fun _ _ _ h => h) fun w' e h he _ => ?_
  obtain ⟨hnested, hup⟩ := nested_apply (w := w') (hA e he)
  exact ⟨hnested.trans h.1, hup.trans h.2⟩

section Calls

variable {w : World} {c : Pid} {A : Effect → Prop}

theorem writeEffect_notNested (h : ¬ StaleLeader w c) {e : Effect} (he : WriteEffect w c e) :
    NotNested e := by
  cases e with
  | drop q lock => exact h ⟨he.2.2.2.1, q, he.1, he.2.1, he.2.2.1⟩
  | _ => trivial

theorem onClient_notNested (hA : w.active c = true → ∀ e, A e → NotNested e) {e : Effect}
    (he : OnClient w c A e) : NotNested e := by
  rcases he with ⟨-, rfl | ⟨dir, rfl⟩⟩ | ⟨hact, he⟩
  · trivial
  · trivial
  · exact hA hact e he

theorem effects_notNested {o : Outcomes} {r : Call} (h : ¬ Nests w (.call o r)) {e : Effect}
    (he : r.effects w e) : NotNested e := by
  cases r with
  | startBatch c signals controls =>
    rw [Call.effects] at he
    refine onClient_notNested (fun hact e he => ?_) he
    obtain ⟨hallows, ⟨hne, he⟩ | he⟩ := he
    · exact writeEffect_notNested (fun hstale => h ⟨hact, hallows, hne, hstale⟩) he
    · cases e <;> first | exact he.elim | trivial
  | writeControl c name domain domainIdx setting =>
    rw [Call.effects] at he
    refine onClient_notNested (fun hact e he => ?_) he
    obtain ⟨hallows, he | ⟨s, rfl⟩ | ⟨st, rfl⟩⟩ := he
    · exact writeEffect_notNested (fun hstale => h ⟨hact, hallows, hstale⟩) he
    · trivial
    · trivial
  | restoreControl c =>
    rw [Call.effects] at he
    refine onClient_notNested (fun hact e he => ?_) he
    obtain he | ⟨st, rfl⟩ := he
    · exact writeEffect_notNested (fun hstale => h ⟨hact, hstale⟩) he
    · trivial
  | _ =>
    cases e with
    | drop q lock => simp [Call.effects, OnClient, OpenEffect, CloseEffect, StopEffect,
        ProfileEffect] at he
    | _ => trivial

end Calls

/-- A stale owner of a lock comes from a stale session file. -/
theorem loadsStaleOwner_of_staleOwner {w w₁ : World} (hfiles : FilesOk w) (hr : Restarted w w₁)
    (h : StaleOwner w₁) : LoadsStaleOwner w := by
  obtain ⟨p, hstale, howner⟩ := h
  rw [World.stale, Bool.and_eq_true, decide_eq_true_eq] at hstale
  obtain ⟨s, hs⟩ := (Dict.mem_iff _ _).mp hstale.1
  obtain ⟨_, _, pi, -, -, -, -, hpi, -, -⟩ := hr.lookup hfiles hs
  refine ⟨p, s, pi, ?_, (hr.sessions p).symm.trans hs, hpi, ?_⟩
  · rwa [hr.controlLock, hr.profilerLock] at howner
  · have hact := hstale.2
    rw [World.active, hs, show w₁.procs.lookup p = some pi by rw [hr.procs, hpi]] at hact
    simpa using hact

theorem OneContext.step {w w' : World} {a : Action} (hkept : Kept w) (h : OneContext w)
    (hC : ¬ Nests w a) (hst : service.step w a w') : OneContext w' := by
  have haround : Around w w' → OneContext w' := by
    intro ha
    obtain ⟨procs, servers, settings, users, now, rfl⟩ := ha.rest
    exact ⟨h.up, h.isFileActive, h.nested⟩
  cases a with
  | call o r =>
    obtain ⟨-, -, -, hwithin⟩ := call_spec hkept hst
    have hC' : ¬ Nests (w.withOutcomes o) (.call o r) := by
      intro hn
      cases r <;> exact hC hn
    obtain ⟨hnested, hup⟩ := nested_steps hwithin.steps fun e => effects_notNested hC'
    exact ⟨hup.trans h.up, hwithin.isFileActive, hnested.trans h.nested⟩
  | restart o =>
    obtain ⟨w₁, w₂, hr, ⟨rfl, hwithin, -⟩ | ⟨-, hstale, -⟩⟩ := restart_spec hkept hst
    · have hnested := nested_steps hwithin.steps fun e he => by
        cases e <;> first | exact he.elim | trivial
      refine ⟨rfl, hwithin.isFileActive, hnested.1.trans ?_⟩
      obtain ⟨_, _, _, _, -, rfl⟩ := hr.rest
      exact h.nested
    · exact absurd (loadsStaleOwner_of_staleOwner (w := w.restarting o) hkept.recorded.files hr hstale) hC
  | _ => exact haround (around_spec rfl hst)

/-- **One lock context at a time.** In every run without a call that finds a stale session of a
leader, and without a restart that reads back a stale session of the owner of a lock, no lock
context is entered inside another one, and the service is always running. -/
theorem oneContext_of_reachable {w₀ w : World} (hw₀ : Fresh w₀)
    (h : service.ReachableIf (fun w a => ¬ Nests w a) w₀ w) : OneContext w :=
  h.invariant_of (fun _ ht => kept_of_reachable hw₀ ht) ⟨hw₀.up, hw₀.isFileActive, hw₀.nested⟩
    fun _ _ _ hkept h hC hst => h.step hkept hC hst

/-! ### A child and its leader -/

/-- The child has opened a session. -/
def beforeWrite : World := leaderAndChild.afterCall (.succeed none) (.openSession "user" 11)

/-- The child has written a control, and the session leader, which had no session, owns the
lock. -/
def afterWrite : World :=
  beforeWrite.afterCall (.succeed none) (.writeControl 11 "CONTROL" 0 0 1)

theorem oneContext_afterWrite : afterWrite.controlLock = some 10 ∧ OneContext afterWrite := by
  have hfresh : Fresh leaderAndChild := World.fresh_small _ _
  have hopen : service.step leaderAndChild _ beforeWrite := step_call rfl rfl
  have hwrite : service.step beforeWrite _ afterWrite := step_call (by decide) (by decide)
  refine ⟨by decide, oneContext_of_reachable hfresh
    (.head (by exact fun h => h) hopen (.head ?_ hwrite (.refl _)))⟩
  rintro ⟨-, -, -, q, hleader, hstale, -⟩
  have hq : beforeWrite.leaderOf 11 = some 10 := by decide
  cases hleader.symm.trans hq
  exact absurd hstale (by decide)

/-- The leader opens a session and changes its user; then the child writes a control. -/
def leaderChangesUser : List Action :=
  [.call (.succeed none) (.openSession "user" 10),
    .setCreds 10 2 2 true,
    .call (.succeed none) (.openSession "user" 11),
    .call (.succeed none) (.writeControl 11 "CONTROL" 0 0 1)]

/-- The write of a child is failed by the stale session of its leader. -/
theorem stale_leader_nests : ¬ ∀ w₀ w, Fresh w₀ → service.Reachable w₀ w → OneContext w := by
  intro hall
  have hrun : (Lts.run World.next leaderAndChild leaderChangesUser).map World.nested = some 1 := by
    decide
  obtain ⟨w, hw, hnested⟩ := Option.map_eq_some_iff.mp hrun
  have hone := hall _ w (World.fresh_small _ _) (Lts.reachable_of_run hw)
  rw [hone.nested] at hnested
  cases hnested

end Geopm
