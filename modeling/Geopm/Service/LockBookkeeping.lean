import Geopm.Service.Runs

/-!
# The bookkeeping of the write lock

Lock file, session table and save directory agree.

* `Booked` : the owner of the control lock has a session, and `SAVE_FILES` holds the settings of
  the moment at which it took the lock; `savedSettings` keeps track of these settings;
* `GivenBack` : the settings have been restored or set aside with a warning, and the lock is free;
* `booked_of_reachable` : every reachable state is `Booked`, and an operation that removes the owner
  of the lock gives the settings back.

A session whose file is read back belongs to the process that opened it: `FreshFiles`.
-/

namespace Geopm

open ActiveSessions (active_iff)

/-- The settings that were saved when the lock was taken: those at the beginning of the operation
that found the lock free. -/
def savedSettings (w : World) (_ : Action) (_ : World) (saved : Settings) : Settings :=
  if w.controlLock = none then w.settings else saved

/-- The owner of the control lock has a session, and its settings are saved. -/
def Booked (w : World) (saved : Settings) : Prop :=
  ∀ p, w.controlLock = some p → p ∈ w.sessions ∧ w.saveFiles = some saved

/-- From `w` to `w'` the session of `p` has been removed: there is none, or another process has
opened it. -/
def Removed (w w' : World) (p : Pid) : Prop :=
  p ∈ w.sessions ∧ ∀ s t, w.sessions.lookup p = some s → w'.sessions.lookup p = some t →
    ¬ s.SameClient t

/-- The settings `saved` of `p` have been restored, or `SAVE_FILES` was renamed with a warning, and
the lock is free. -/
structure GivenBack (p : Pid) (saved : Settings) (w w' : World) : Prop where
  controlLock : w'.controlLock = none
  saveFiles : w'.saveFiles = none
  settings : w'.settings = saved ∨ ∃ dir, (dir, saved) ∈ w'.aside ∧
    w.journal.Logs w'.journal [PlatformService.notRestored p dir]

/-- `p` holds the lock, its settings are saved, and its session goes on. -/
structure Holding (p : Pid) (saved : Settings) (w w' : World) : Prop where
  controlLock : w'.controlLock = some p
  saveFiles : w'.saveFiles = some saved
  session : ∃ s t, w.sessions.lookup p = some s ∧ w'.sessions.lookup p = some t ∧ s.Keeps t

/-! ### Releasing the lock -/

variable {w w' : World} {p : Pid} {saved : Settings}

section Release

/-- `_close_session_write` gives the settings back. -/
theorem givenBack_released {j : Journal} {dir : String} (hsave : w'.saveFiles = some saved)
    (hj : w.journal.Logs w'.journal []) (hlog : w'.journal.Logs j (Effect.releaseLogs w' p dir)) :
    GivenBack p saved w ((w'.released dir).quiet j) := by
  refine ⟨rfl, rfl, ?_⟩
  change w'.restored = saved ∨ ∃ dir', (dir', saved) ∈ w'.asideAfter dir ∧ _
  unfold World.restored World.asideAfter
  unfold Effect.releaseLogs at hlog
  cases hfail : w'.outcomes.restoreFails with
  | none =>
    rw [hsave]
    exact .inl rfl
  | some partly =>
    rw [hsave] at hlog ⊢
    rw [hfail] at hlog
    exact .inr ⟨dir, List.mem_cons_self, hj.trans hlog⟩

theorem unlocked_owner (hlock : w'.controlLock = some p) (dir : String) :
    ∃ q, w'.unlocked p dir = (w'.released dir).withProfilerLock q := by
  refine ⟨if w'.profilerLock = some p then none else w'.profilerLock, ?_⟩
  simp only [World.unlocked, hlock, if_true]
  rfl

theorem unlocked_other (hlock : w'.controlLock ≠ some p) (dir : String) :
    ∃ q, w'.unlocked p dir = w'.withProfilerLock q := by
  refine ⟨if w'.profilerLock = some p then none else w'.profilerLock, ?_⟩
  simp only [World.unlocked, if_neg hlock]
  rfl

end Release

/-! ### Operations -/

/-- The effects of the operations that may close the session of the owner of the lock. -/
def ClosingKind : Effect → Prop
  | .take _ => False
  | .drop _ _ => False
  | .setSettings _ => False
  | .setAside _ => False
  | .release _ _ => False
  | _ => True

/-- The effects of the operations that may take the lock. -/
def TakingKind : Effect → Prop
  | .close _ _ => False
  | .release _ _ => False
  | .drop _ lock => lock = none
  | _ => True

/-- The effect does not touch the lock, the settings and the save directories. -/
def LeavesLock : Effect → Prop
  | .close _ _ => False
  | .take _ => False
  | .setSettings _ => False
  | .setAside _ => False
  | .release _ _ => False
  | _ => True

variable {e : Effect}

section Effects

theorem leavesLock_apply (he : LeavesLock e) :
    (Effect.apply w e).controlLock = w.controlLock ∧ (Effect.apply w e).saveFiles = w.saveFiles ∧
      (Effect.apply w e).settings = w.settings ∧ (Effect.apply w e).aside = w.aside := by
  cases e <;> first | exact he.elim | exact ⟨rfl, rfl, rfl, rfl⟩

/-- A session goes on when it is not closed. -/
theorem session_apply {s : Session} (hguard : Effect.guard w' e) (hclose : ∀ dir, e ≠ .close p dir)
    (hdrop : ∀ lock, e ≠ .drop p lock)
    (h : ∃ t, w'.sessions.lookup p = some t ∧ s.Keeps t) :
    ∃ t, (Effect.apply w' e).sessions.lookup p = some t ∧ s.Keeps t := by
  obtain ⟨t, ht, hkeeps⟩ := h
  have hp : p ∈ w'.sessions := (Dict.mem_iff _ _).mpr ⟨t, ht⟩
  have hmem : p ∈ (Effect.apply w' e).sessions := by
    rcases mem_apply (e := e) hp with hmem | ⟨dir, rfl⟩ | ⟨lock, rfl⟩
    · exact hmem
    · exact absurd rfl (hclose dir)
    · exact absurd rfl (hdrop lock)
  obtain ⟨t', ht'⟩ := (Dict.mem_iff _ _).mp hmem
  rcases lookup_apply hguard ht' with ⟨u, hu, hkeeps'⟩ | ⟨user, rfl⟩
  · cases ht.symm.trans hu
    exact ⟨t', ht', hkeeps.trans hkeeps'⟩
  · exact absurd hp hguard.1

theorem Holding.apply (h : Holding p saved w w') (hguard : Effect.guard w' e) (he : LeavesLock e)
    (hdrop : ∀ lock, e ≠ .drop p lock) : Holding p saved w (Effect.apply w' e) := by
  obtain ⟨hlock, hsave, -, -⟩ := leavesLock_apply (w := w') he
  obtain ⟨s, t, hs, ht, hkeeps⟩ := h.session
  obtain ⟨t', ht', hkeeps'⟩ := session_apply (s := s) hguard (e := e)
    (fun dir heq => by rw [heq] at he; exact he) hdrop ⟨t, ht, hkeeps⟩
  exact ⟨hlock.trans h.controlLock, hsave.trans h.saveFiles, s, t', hs, ht', hkeeps'⟩

theorem GivenBack.of_eq {w'' : World} (h : GivenBack p saved w w')
    (hlock : w''.controlLock = w'.controlLock) (hsave : w''.saveFiles = w'.saveFiles)
    (hsettings : w''.settings = w'.settings) (haside : w''.aside = w'.aside)
    (hlog : w'.journal.Logs w''.journal []) : GivenBack p saved w w'' := by
  refine ⟨hlock.trans h.controlLock, hsave.trans h.saveFiles, ?_⟩
  rw [hsettings, haside]
  refine h.settings.imp id fun ⟨dir, hdir, hmsg⟩ => ⟨dir, hdir, ?_⟩
  exact (hmsg.trans hlog).mono (List.subset_append_left _ _)

end Effects

/-- What an operation that does not take the lock has done when it has come to `w'`. -/
structure Closing (saved : Settings) (w w' : World) : Prop where
  logs : w.journal.Logs w'.journal []
  lock : (w.controlLock = none ∧ w'.controlLock = none) ∨
    ∃ p, w.controlLock = some p ∧ (Holding p saved w w' ∨ GivenBack p saved w w')

/-- What an operation that does not release the lock has done when it has come to `w'`. -/
def Taking (saved : Settings) (w w' : World) : Prop :=
  (∃ p, w.controlLock = some p ∧ Holding p saved w w') ∨
    (w.controlLock = none ∧ ((w'.controlLock = none ∧ w'.settings = w.settings) ∨
      ∃ p, w'.controlLock = some p ∧ p ∈ w'.sessions ∧ w'.saveFiles = some w.settings))

section Operations

variable {j : Journal}

/-- Closing a session. -/
theorem Closing.close {q : Pid} {dir : String} (h : Closing saved w w')
    (hlog : w'.journal.Logs j (Effect.logs w' (.close q dir))) :
    Closing saved w ((Effect.apply w' (.close q dir)).quiet j) := by
  have hlogs : w'.journal.Logs j [] := hlog.mono (List.nil_subset _)
  refine ⟨h.logs.trans hlogs, ?_⟩
  change _ ∨ ∃ p, w.controlLock = some p ∧
    (Holding p saved w (((w'.removed q).unlocked q dir).quiet j) ∨
      GivenBack p saved w (((w'.removed q).unlocked q dir).quiet j))
  rcases h.lock with ⟨hnone, hlock⟩ | ⟨p, hp, hold | hgiven⟩
  · refine .inl ⟨hnone, ?_⟩
    change (if w'.controlLock = some q then none else w'.controlLock) = none
    rw [hlock]
    rfl
  · by_cases hq : p = q
    · subst hq
      refine .inr ⟨p, hp, .inr ?_⟩
      have hmsgs : (w'.removed p).journal.Logs j (Effect.releaseLogs (w'.removed p) p dir) := by
        change w'.journal.Logs j (if w'.controlLock = some p then _ else _) at hlog
        rw [if_pos hold.controlLock] at hlog
        exact hlog
      have hunlocked : ∃ lock, (w'.removed p).unlocked p dir =
          ((w'.removed p).released dir).withProfilerLock lock :=
        unlocked_owner (by exact hold.controlLock) dir
      obtain ⟨lock, heq⟩ := hunlocked
      rw [heq]
      have hgiven : GivenBack p saved w (((w'.removed p).released dir).quiet j) :=
        givenBack_released (by exact hold.saveFiles) (by exact h.logs) hmsgs
      exact ⟨hgiven.controlLock, hgiven.saveFiles, hgiven.settings⟩
    · refine .inr ⟨p, hp, .inl ?_⟩
      have hne : (w'.removed q).controlLock ≠ some q := by
        change w'.controlLock ≠ some q
        rw [hold.controlLock]
        simpa using hq
      obtain ⟨lock, heq⟩ := unlocked_other hne dir
      rw [heq]
      obtain ⟨s, t, hs, ht, hkeeps⟩ := hold.session
      refine ⟨hold.controlLock, hold.saveFiles, s, t, hs, ?_, hkeeps⟩
      exact (AList.lookup_erase_ne hq).trans ht
  · have hne : (w'.removed q).controlLock ≠ some q := by
      change w'.controlLock ≠ some q
      rw [hgiven.controlLock]
      simp
    obtain ⟨lock, heq⟩ := unlocked_other hne dir
    rw [heq]
    exact .inr ⟨p, hp, .inr (hgiven.of_eq rfl rfl rfl rfl hlogs)⟩

theorem Closing.step (h : Closing saved w w') (hguard : Effect.guard w' e) (he : ClosingKind e)
    (hlog : w'.journal.Logs j (Effect.logs w' e)) :
    Closing saved w ((Effect.apply w' e).quiet j) := by
  by_cases hleaves : LeavesLock e
  · obtain ⟨hlock, hsave, hsettings, haside⟩ := leavesLock_apply (w := w') hleaves
    have hlogs : w'.journal.Logs j [] := hlog.mono (List.nil_subset _)
    refine ⟨h.logs.trans hlogs, ?_⟩
    rcases h.lock with ⟨hnone, hfree⟩ | ⟨p, hp, hold | hgiven⟩
    · exact .inl ⟨hnone, hlock.trans hfree⟩
    · have hold' := hold.apply hguard hleaves fun lock heq => by rw [heq] at he; exact he
      exact .inr ⟨p, hp, .inl ⟨hold'.controlLock, hold'.saveFiles, hold'.session⟩⟩
    · exact .inr ⟨p, hp, .inr (hgiven.of_eq hlock hsave hsettings haside hlogs)⟩
  · cases e with
    | close q dir => exact h.close hlog
    | _ => first | exact he.elim | exact absurd trivial hleaves

theorem Taking.step (h : Taking saved w w') (hguard : Effect.guard w' e) (he : TakingKind e) :
    Taking saved w (Effect.apply w' e) := by
  -- the effects that need a lock that is free, or held
  have hfree : w'.controlLock = none → w.controlLock = none ∧ w'.settings = w.settings := by
    intro hnone
    rcases h with ⟨p, -, hold⟩ | ⟨hw, ⟨-, hsettings⟩ | ⟨p, hp, -⟩⟩
    · exact absurd (hold.controlLock.symm.trans hnone) (by simp)
    · exact ⟨hw, hsettings⟩
    · exact absurd (hp.symm.trans hnone) (by simp)
  by_cases hdrop : ∃ p lock, e = .drop p lock
  · obtain ⟨p, lock, rfl⟩ := hdrop
    have hnone : w'.controlLock = none := hguard.2.trans he
    exact .inr ⟨(hfree hnone).1, .inl ⟨hnone, (hfree hnone).2⟩⟩
  · have hdrop' : ∀ p lock, e ≠ .drop p lock := fun p lock heq => hdrop ⟨p, lock, heq⟩
    have hclose : ∀ p dir, e ≠ .close p dir := fun p dir heq => by rw [heq] at he; exact he
    by_cases hleaves : LeavesLock e
    · obtain ⟨hlock, hsave, hsettings, -⟩ := leavesLock_apply (w := w') hleaves
      rcases h with ⟨p, hp, hold⟩ | ⟨hw, ⟨hnone, hset⟩ | ⟨p, hp, hmem, hsaved⟩⟩
      · exact .inl ⟨p, hp, hold.apply hguard hleaves (hdrop' p)⟩
      · exact .inr ⟨hw, .inl ⟨hlock.trans hnone, hsettings.trans hset⟩⟩
      · refine .inr ⟨hw, .inr ⟨p, hlock.trans hp, ?_, hsave.trans hsaved⟩⟩
        rcases mem_apply (e := e) hmem with hmem' | ⟨dir, heq⟩ | ⟨lock, heq⟩
        · exact hmem'
        · exact absurd heq (hclose p dir)
        · exact absurd heq (hdrop' p lock)
    · cases e with
      | take q =>
        obtain ⟨hw, hsettings⟩ := hfree hguard.1
        refine .inr ⟨hw, .inr ⟨q, rfl, ?_, congrArg some hsettings⟩⟩
        obtain ⟨s, _, hs, -, -⟩ := active_iff.mp hguard.2.2
        exact (Dict.mem_iff _ _).mpr ⟨s, hs⟩
      | setAside dir =>
        obtain ⟨hw, hsettings⟩ := hfree hguard
        exact .inr ⟨hw, .inl ⟨hguard, hsettings⟩⟩
      | setSettings st =>
        rcases h with ⟨p, hp, hold⟩ | ⟨hw, ⟨hnone, -⟩ | hheld⟩
        · exact .inl ⟨p, hp, hold.controlLock, hold.saveFiles, hold.session⟩
        · exact absurd hnone hguard
        · exact .inr ⟨hw, .inr hheld⟩
      | _ => first | exact he.elim | exact absurd trivial hleaves

theorem effects_kind (w : World) (r : Call) :
    (∀ e, r.effects w e → ClosingKind e) ∨ ∀ e, r.effects w e → TakingKind e := by
  have hwrite : ∀ {c e}, WriteEffect w c e → TakingKind e := by
    intro c e he
    cases e with
    | drop q lock => exact he.2.2.2.2
    | _ => first | exact he.elim | trivial
  have hclient : ∀ {c} {A : Effect → Prop}, (∀ e, A e → TakingKind e) →
      (∀ e, OnClient w c A e → ClosingKind e) ∨ ∀ e, OnClient w c A e → TakingKind e := by
    intro c A hA
    cases hact : w.active c with
    | true =>
      refine .inr ?_
      rintro e (⟨hn, -⟩ | ⟨-, he⟩)
      · rw [hact] at hn
        cases hn
      · exact hA e he
    | false =>
      refine .inl ?_
      rintro e (⟨-, rfl | ⟨dir, rfl⟩⟩ | ⟨hn, -⟩)
      · trivial
      · trivial
      · rw [hact] at hn
        cases hn
  cases r with
  | startBatch c signals controls =>
    refine hclient ?_
    rintro e ⟨-, ⟨-, he⟩ | he⟩
    · exact hwrite he
    · cases e <;> first | exact he.elim | trivial
  | writeControl c name domain domainIdx setting =>
    refine hclient ?_
    rintro e ⟨-, he | ⟨s, rfl⟩ | ⟨st, rfl⟩⟩
    · exact hwrite he
    · trivial
    · trivial
  | restoreControl c =>
    refine hclient ?_
    rintro e (he | ⟨st, rfl⟩)
    · exact hwrite he
    · trivial
  | _ =>
    refine .inl fun e he => ?_
    cases e <;> first | trivial | simp [Call.effects, OnClient, OpenEffect, CloseEffect,
      StopEffect, ProfileEffect] at he

end Operations

/-- What one operation does about the lock: the owner keeps it, or the settings are given back, or it
has just been taken. -/
structure Handled (saved : Settings) (w w' : World) : Prop where
  booked : Booked w' (if w.controlLock = none then w.settings else saved)
  owner : ∀ p, w.controlLock = some p → Holding p saved w w' ∨ GivenBack p saved w w'

theorem Holding.handled {p : Pid} (h : Holding p saved w w')
    (hp : w.controlLock = some p) : Handled saved w w' := by
  refine ⟨fun q hq => ?_, fun q hq => ?_⟩
  · rw [if_neg (by rw [hp]; simp)]
    cases hq.symm.trans h.controlLock
    obtain ⟨_, t, -, ht, -⟩ := h.session
    exact ⟨(Dict.mem_iff _ _).mpr ⟨t, ht⟩, h.saveFiles⟩
  · cases hp.symm.trans hq
    exact .inl h

theorem GivenBack.handled {p : Pid}     (h : GivenBack p saved w w') (hp : w.controlLock = some p) : Handled saved w w' := by
  refine ⟨fun q hq => absurd (hq.symm.trans h.controlLock) (by simp), fun q hq => ?_⟩
  cases hp.symm.trans hq
  exact .inr h

theorem Closing.handled (h : Closing saved w w') :
    Handled saved w w' := by
  rcases h.lock with ⟨hnone, hfree⟩ | ⟨p, hp, hold | hgiven⟩
  · exact ⟨fun p hp => absurd (hp.symm.trans hfree) (by simp),
      fun p hp => absurd (hp.symm.trans hnone) (by simp)⟩
  · exact hold.handled hp
  · exact hgiven.handled hp

theorem Taking.handled (h : Taking saved w w') :
    Handled saved w w' := by
  rcases h with ⟨p, hp, hold⟩ | ⟨hw, hcases⟩
  · exact hold.handled hp
  · refine ⟨fun p hp => ?_, fun p hp => absurd (hp.symm.trans hw) (by simp)⟩
    rw [if_pos hw]
    rcases hcases with ⟨hnone, -⟩ | ⟨q, hq, hmem, hsave⟩
    · exact absurd (hp.symm.trans hnone) (by simp)
    · cases hp.symm.trans hq
      exact ⟨hmem, hsave⟩

/-- A call, from a state in which the owner of the lock is booked. -/
theorem Booked.call {o : Outcomes} {r : Call} (hkept : Kept w)
    (h : Booked w saved) (hst : service.step w (.call o r) w') : Handled saved w w' := by
  obtain ⟨-, -, -, hwithin⟩ := call_spec hkept hst
  have hholding : ∀ p, w.controlLock = some p → Holding p saved w (w.withOutcomes o) := by
    intro p hp
    obtain ⟨hmem, hsave⟩ := h p hp
    obtain ⟨s, hs⟩ := (Dict.mem_iff _ _).mp hmem
    exact ⟨hp, hsave, s, s, hs, hs, .refl s⟩
  rcases effects_kind (w.withOutcomes o) r with hkind | hkind
  · refine Closing.handled (hwithin.steps.induct (I := Closing saved w) ?_ ?_)
    · refine ⟨.refl _, ?_⟩
      cases hlock : w.controlLock with
      | none => exact .inl ⟨rfl, hlock⟩
      | some p => exact .inr ⟨p, rfl, .inl (hholding p hlock)⟩
    · intro u e j b hclosing he hguard hlog
      have hstep := hclosing.step hguard (he.elim (hkind e) fun heq => heq ▸ trivial) hlog
      refine ⟨hstep.logs, hstep.lock.imp id fun ⟨p, hp, hcases⟩ => ⟨p, hp, hcases.imp ?_ ?_⟩⟩
      · exact fun hold => ⟨hold.controlLock, hold.saveFiles, hold.session⟩
      · exact fun hgiven => ⟨hgiven.controlLock, hgiven.saveFiles, hgiven.settings⟩
  · refine Taking.handled ((hwithin.steps.mono hkind).invariant (I := Taking saved w) ?_ ?_ ?_)
    · cases hlock : w.controlLock with
      | none => exact .inr ⟨hlock, .inl ⟨hlock, rfl⟩⟩
      | some p => exact .inl ⟨p, hlock, hholding p hlock⟩
    · refine fun u j b htaking => htaking.imp ?_ id
      exact fun ⟨p, hp, hold⟩ => ⟨p, hp, hold.controlLock, hold.saveFiles, hold.session⟩
    · exact fun u e htaking he hguard => htaking.step hguard he

/-! ### Fresh files -/

/-- A file is not from the future, and a process that is older than the file of its PID is the
one that opened the session. -/
def FreshFiles (w : World) : Prop :=
  ∀ p file, w.sessionFiles.lookup p = some file → file.ctime ≤ w.now ∧
    ∀ s : Session, file.contents = s.toJson → ∀ pi, w.procs.lookup p = some pi →
      pi.createTime < file.ctime → World.sameProcess s pi = true

theorem FreshFiles.apply {w : World} {e : Effect} (h : FreshFiles w) (hguard : Effect.guard w e)
    (hwatch : ∀ p s id, e = .watch p s id → w.active p = true) : FreshFiles (Effect.apply w e) := by
  intro p file hfile
  rw [now_apply]
  rcases file_apply hguard hfile with hold | ⟨t, ht, rfl, hwritten⟩
  · obtain ⟨htime, hsame⟩ := h p file hold
    refine ⟨htime, fun s hs pi hpi hlt => ?_⟩
    rcases procs_apply hguard hpi with hpi | hnew
    · exact hsame s hs pi hpi hlt
    · omega
  · refine ⟨le_rfl, fun s hs pi hpi hlt => ?_⟩
    cases Session.toJson_injective hs
    -- the process was there when the record was written
    have hold : w.procs.lookup p = some pi := by
      rcases procs_apply hguard hpi with hpi | hnew
      · exact hpi
      · exact absurd hlt (by simp [hnew])
    rcases hwritten with ⟨pi', hpi', hsame⟩ | ⟨u, id, rfl⟩
    · cases hold.symm.trans hpi'
      exact hsame
    · obtain ⟨s', pi', hs', hpi', hsame⟩ := active_iff.mp (hwatch p u id rfl)
      cases hold.symm.trans hpi'
      rcases lookup_apply hguard ht with ⟨s'', hs'', hkeeps⟩ | ⟨user, heq⟩
      · cases hs'.symm.trans hs''
        exact (hkeeps.client.sameProcess pi).trans hsame
      · cases heq

/-- In a fresh state, a session that is read back belongs to the process that opened it. -/
theorem Restarted.active {w w₁ : World} (hr : Restarted w w₁) (hfiles : FilesOk w)
    (hfresh : FreshFiles w) {p : Pid} (hp : p ∈ w₁.sessions) : w₁.active p = true := by
  obtain ⟨s, hs⟩ := (Dict.mem_iff _ _).mp hp
  obtain ⟨file, t, pi, hfile, ht, -, -, hpi, hlt, rfl⟩ := hr.lookup hfiles hs
  refine active_iff.mpr ⟨_, pi, hs, hr.procs ▸ hpi, ?_⟩
  exact (hfresh p file hfile).2 t ht pi hpi hlt

theorem Restarted.freshFiles {w w₁ : World} (hr : Restarted w w₁) (hfiles : FilesOk w)
    (hfresh : FreshFiles w) : FreshFiles w₁ := by
  have hnow : w₁.now = w.now := by
    obtain ⟨_, _, _, _, -, rfl⟩ := hr.rest
    rfl
  intro p file hfile
  rw [hr.sessionFiles, Option.map_eq_some_iff] at hfile
  obtain ⟨s, hs, rfl⟩ := hfile
  refine ⟨hnow.ge, fun s' hs' pi hpi _ => ?_⟩
  cases Session.toJson_injective hs'
  have hlookup := (hr.sessions p).trans hs
  obtain ⟨s'', pi', hs'', hpi', hsame⟩ := active_iff.mp
    (hr.active hfiles hfresh ((Dict.mem_iff _ _).mpr ⟨s, hlookup⟩))
  cases hlookup.symm.trans hs''
  cases hpi.symm.trans hpi'
  exact hsame

/-! ### Restarts -/

/-- What the constructor has done when it has come to `w'`, from the state `w` in which the
sessions have been read back. -/
structure Recovering (saved : Settings) (w w' : World) : Prop where
  logs : w.journal.Logs w'.journal []
  active : ∀ p, p ∈ w'.sessions → w'.active p = true
  lock : (w'.controlLock = w.controlLock ∧ w'.saveFiles = w.saveFiles) ∨
    ∃ p, w.controlLock = some p ∧ GivenBack p saved w w'

theorem Recovering.step {e : Effect} {j : Journal}
    (h : Recovering saved w w') (hsave : w.controlLock ≠ none → w.saveFiles = some saved)
    (hguard : Effect.guard w' e) (he : RestartEffect w e ∨ e = .none)
    (hlog : w'.journal.Logs j (Effect.logs w' e)) :
    Recovering saved w ((Effect.apply w' e).quiet j) := by
  have hlogs : w'.journal.Logs j [] := hlog.mono (List.nil_subset _)
  have hfree : ∀ {w'' : World}, w''.controlLock = w'.controlLock → w''.saveFiles = w'.saveFiles →
      w''.settings = w'.settings → w''.aside = w'.aside → w''.journal = j →
      (w''.controlLock = w.controlLock ∧ w''.saveFiles = w.saveFiles) ∨
        ∃ p, w.controlLock = some p ∧ GivenBack p saved w w'' := by
    intro w'' hlock hsave' hsettings haside hj
    refine h.lock.imp (fun hl => ⟨hlock.trans hl.1, hsave'.trans hl.2⟩) fun ⟨p, hp, hgiven⟩ => ?_
    exact ⟨p, hp, hgiven.of_eq hlock hsave' hsettings haside (hj ▸ hlogs)⟩
  cases e with
  | watch q s id =>
    refine ⟨h.logs.trans hlogs, fun p hp => ?_, hfree rfl rfl rfl rfl rfl⟩
    have hq : q ∈ w'.sessions := (Dict.mem_iff _ _).mpr ⟨s, hguard⟩
    have hp' : p ∈ w'.sessions := by
      rcases (AList.mem_insert _).mp hp with rfl | hp
      · exact hq
      · exact hp
    obtain ⟨s', pi, hs', hpi, hsame⟩ := active_iff.mp (h.active p hp')
    refine active_iff.mpr ?_
    by_cases hpq : p = q
    · subst hpq
      cases hs'.symm.trans hguard
      exact ⟨_, pi, AList.lookup_insert _, hpi, hsame⟩
    · exact ⟨s', pi, (AList.lookup_insert_ne hpq).trans hs', hpi, hsame⟩
  | none => exact ⟨h.logs.trans hlogs, h.active, hfree rfl rfl rfl rfl rfl⟩
  | discard q =>
    exact ⟨h.logs.trans hlogs, h.active, hfree rfl rfl rfl rfl rfl⟩
  | unlockProfiler =>
    exact ⟨h.logs.trans hlogs, h.active, hfree rfl rfl rfl rfl rfl⟩
  | release q dir =>
    have howner : w.controlLock = some q := he.resolve_right (by simp)
    refine ⟨h.logs.trans hlogs, h.active, .inr ⟨q, howner, ?_⟩⟩
    have hheld : w'.saveFiles = some saved := by
      rcases h.lock with ⟨-, hs⟩ | ⟨p, -, hgiven⟩
      · exact hs.trans (hsave (by rw [howner]; simp))
      · exact absurd (hguard.2.symm.trans hgiven.controlLock) (by simp)
    exact givenBack_released hheld h.logs hlog
  | _ => exact (he.resolve_right (by simp)).elim

/-- A restart, from a state in which the owner of the lock is booked. -/
theorem Booked.restart {o : Outcomes} (hkept : Kept w)
    (h : Booked w saved) (hfresh : FreshFiles w) (hst : service.step w (.restart o) w') :
    Handled saved w w' ∧ FreshFiles w' := by
  obtain ⟨w₁, w₂, hr, hcases⟩ := restart_spec hkept hst
  have hfiles : FilesOk (w.restarting o) := hkept.recorded.files
  have hactive : ∀ p, p ∈ w₁.sessions → w₁.active p = true :=
    fun p hp => Restarted.active hr hfiles hfresh hp
  obtain ⟨sessions, files, profiles, j, hlogs, hw₁⟩ := hr.rest
  have hlock₁ : w₁.controlLock = w.controlLock := hr.controlLock
  have hsave₁ : w₁.saveFiles = w.saveFiles := by rw [hw₁]; rfl
  have hlogs₁ : w.journal.Logs w₁.journal [] := by rw [hw₁]; exact hlogs
  rcases hcases with ⟨rfl, hwithin, howner, -⟩ | ⟨-, ⟨p, hstale, -⟩, -⟩
  · have hsaved : w₁.controlLock ≠ none → w₁.saveFiles = some saved := by
      rw [hlock₁, hsave₁]
      intro hne
      obtain ⟨p, hp⟩ := Option.ne_none_iff_exists'.mp hne
      exact (h p hp).2
    obtain ⟨hrec, hfresh₂⟩ := hwithin.steps.induct
      (I := fun w' => Recovering saved w₁ w' ∧ FreshFiles w')
      ⟨⟨.refl _, hactive, .inl ⟨rfl, rfl⟩⟩,
        hr.freshFiles hfiles hfresh⟩ (by
          rintro u e j b ⟨hrec, hfresh⟩ he hguard hlog
          have hstep := hrec.step hsaved hguard he hlog
          refine ⟨⟨hstep.logs, hstep.active, hstep.lock.imp id ?_⟩,
            hfresh.apply hguard ?_⟩
          · exact fun ⟨p, hp, hg⟩ => ⟨p, hp, hg.controlLock, hg.saveFiles, hg.settings⟩
          · rintro p s id rfl
            exact hrec.active p ((Dict.mem_iff _ _).mpr ⟨s, hguard⟩))
    refine ⟨?_, hfresh₂⟩
    rcases hrec.lock with ⟨hlock, hsave⟩ | ⟨p, hp, hgiven⟩
    · cases hnone : w.controlLock with
      | none =>
        have hfree : w₂.controlLock = none := hlock.trans (hlock₁.trans hnone)
        exact ⟨fun p hp => absurd (hp.symm.trans hfree) (by simp),
          fun p hp => absurd (hp.symm.trans hnone) (by simp)⟩
      | some p =>
        -- the owner of the lock is active, and its session goes on
        have hp₂ : w₂.controlLock = some p := hlock.trans (hlock₁.trans hnone)
        obtain ⟨t, _, ht, -, -⟩ := active_iff.mp (howner p hp₂)
        obtain ⟨s, hs, hkeeps⟩ := restart_keeps hkept hst ht
        refine Holding.handled ⟨hp₂, ?_, s, t, hs, ht, hkeeps⟩ hnone
        exact hsave.trans (hsave₁.trans (h p hnone).2)
    · refine GivenBack.handled (p := p) ⟨hgiven.controlLock, hgiven.saveFiles, ?_⟩
        (hlock₁.symm.trans hp)
      exact hgiven.settings.imp id fun ⟨dir, hdir, hmsg⟩ => ⟨dir, hdir, hlogs₁.trans hmsg⟩
  · rw [World.stale, Bool.and_eq_true, decide_eq_true_eq] at hstale
    rw [hactive p hstale.1] at hstale
    exact absurd hstale.2 (by simp)

/-! ### All runs -/

theorem effects_watch {w : World} {r : Call} {p : Pid} {s : Session} {id : ℤ} :
    ¬ r.effects w (.watch p s id) := by
  intro h
  cases r <;> simp [Call.effects, OnClient, OpenEffect, WriteEffect, CloseEffect, StartEffect,
    StopEffect, ProfileEffect] at h

theorem FreshFiles.call {o : Outcomes} {r : Call} (hkept : Kept w)
    (h : FreshFiles w) (hst : service.step w (.call o r) w') : FreshFiles w' := by
  obtain ⟨-, -, -, hwithin⟩ := call_spec hkept hst
  refine hwithin.steps.invariant (I := FreshFiles) h (fun _ _ _ h => h) fun u e h he hguard => ?_
  exact h.apply hguard fun p s id heq => absurd (heq ▸ he) effects_watch

theorem FreshFiles.around {a : Action} (h : FreshFiles w)
    (ha : a.isAround = true) (hids : a.keepsIds = true) (hst : service.step w a w') :
    FreshFiles w' := by
  have hw := around_spec ha hst
  intro p file hfile
  have hold : w.sessionFiles.lookup p = some file := by
    obtain ⟨procs, servers, settings, users, now, rfl⟩ := hw.rest
    exact hfile
  obtain ⟨htime, hsame⟩ := h p file hold
  refine ⟨htime.trans hw.now, fun s hs pi hpi hlt => ?_⟩
  rcases around_ids ha hids hst hpi with ⟨pi', hpi', heq⟩ | hnew
  · rcases hw.procs p pi hpi with ⟨pi'', hpi'', htime'⟩ | ⟨hnot, -⟩
    · cases hpi'.symm.trans hpi''
      rw [heq]
      exact hsame s hs pi' hpi' (htime' ▸ hlt)
    · exact absurd ((Dict.mem_iff _ _).mpr ⟨pi', hpi'⟩) hnot
  · omega

theorem Booked.step {a : Action} (hkept : Kept w)
    (h : Booked w saved) (hfresh : FreshFiles w) (hids : a.keepsIds = true)
    (hst : service.step w a w') : Handled saved w w' ∧ FreshFiles w' := by
  have haround : Around w w' → Handled saved w w' := by
    intro hw
    obtain ⟨procs, servers, settings, users, now, rfl⟩ := hw.rest
    refine ⟨fun p hp => ?_, fun p hp => .inl ?_⟩
    · have hp' : w.controlLock = some p := hp
      rw [if_neg (by rw [hp']; simp)]
      exact h p hp
    · obtain ⟨s, hs⟩ := (Dict.mem_iff _ _).mp (h p hp).1
      exact ⟨hp, (h p hp).2, s, s, hs, hs, .refl s⟩
  cases a with
  | call o r => exact ⟨h.call hkept hst, hfresh.call hkept hst⟩
  | restart o => exact h.restart hkept hfresh hst
  | _ => exact ⟨haround (around_spec rfl hst), hfresh.around rfl hids hst⟩

/-- **Write-lock bookkeeping.** In every state that is reached by the operations of the service,
restarts, deaths of processes and reuse of their PIDs, the owner of the control lock has a session,
and `SAVE_FILES` holds the settings saved when it took the lock; an operation that removes its
session gives the settings back and leaves the lock free. -/
theorem booked_of_reachable {w₀ : World} {saved₀ : Settings} {x : World × Settings}
    (hw₀ : Fresh w₀)
    (h : (service.record savedSettings).ReachableIf (fun _ a => a.keepsIds = true)
      (w₀, saved₀) x) :
    Booked x.1 x.2 ∧ ∀ a w' p, a.keepsIds = true → service.step x.1 a w' →
      x.1.controlLock = some p → Removed x.1 w' p → GivenBack p x.2 x.1 w' := by
  have hinv : Kept x.1 ∧ Booked x.1 x.2 ∧ FreshFiles x.1 := by
    refine h.invariant (I := fun x => Kept x.1 ∧ Booked x.1 x.2 ∧ FreshFiles x.1) ?_ ?_
    · refine ⟨hw₀.kept, fun p hp => ?_, fun p file hfile => ?_⟩
      · exact absurd (hp.symm.trans hw₀.controlLock) (by simp)
      · rw [hw₀.sessionFiles] at hfile
        cases hfile
    · rintro y a z ⟨hkept, hbooked, hfresh⟩ hids ⟨hst, hsaved⟩
      obtain ⟨hhandled, hfresh'⟩ := hbooked.step hkept hfresh hids hst
      rw [hsaved]
      exact ⟨hkept.step hst, hhandled.booked, hfresh'⟩
  obtain ⟨hkept, hbooked, hfresh⟩ := hinv
  refine ⟨hbooked, fun a w' p hids hst hp hremoved => ?_⟩
  refine ((hbooked.step hkept hfresh hids hst).1.owner p hp).resolve_left fun hold => ?_
  obtain ⟨s, t, hs, ht, hkeeps⟩ := hold.session
  exact hremoved.2 s t hs ht hkeeps.client

/-! ### A writer and its settings -/

/-- The child has opened a session. -/
def beforeLock : World := leaderAndChild.afterCall (.succeed none) (.openSession "user" 11)

/-- The child has written a control, and its leader owns the lock. -/
def afterLock : World :=
  beforeLock.afterCall (.succeed none) (.writeControl 11 "CONTROL" 0 0 1)

theorem booked_afterLock : afterLock.controlLock = some 10 ∧
    Booked afterLock beforeLock.settings := by
  have hfresh : Fresh leaderAndChild := World.fresh_small _ _
  have hopen : service.step leaderAndChild _ beforeLock := step_call rfl rfl
  have hwrite : service.step beforeLock _ afterLock := step_call (by decide) (by decide)
  have hfree : beforeLock.controlLock = none := by decide
  have hstart : (service.record savedSettings).ReachableIf (fun _ a => a.keepsIds = true)
      (leaderAndChild, leaderAndChild.settings) (afterLock, beforeLock.settings) :=
    .tail (.tail (t := (beforeLock, leaderAndChild.settings)) (.refl _) rfl ⟨hopen, rfl⟩) rfl
      ⟨hwrite, (if_pos hfree).symm⟩
  exact ⟨by decide, (booked_of_reachable hfresh hstart).1⟩

end Geopm
