import Geopm.Session.SamplingLoop

/-!
# What a session leaves behind

For every run that `check_read_args` accepts, and every call of it that may raise:

* `CleanedUp` : what a run should have done when it returns or raises;
* `saves`, `launches`, `loops` : how far a run gets, in terms of what the calls before do;
* `runBody_spec` and `stop_spec` : the statements under the `try`, and the clean-up;
* `cleanedUp_iff_undisturbed` : the run has cleaned up exactly when nothing disturbs it.

`stop` is a sequence: when flushing the trace or writing the report raises, `run_end`,
`restore_control` and `kill_subp` are not called.  `kill_subp` is given `None` for the signal, so a
command that still runs is not ended.
-/

namespace Geopm

namespace Session

open Prog
open World

/-! ### The property -/

/-- What a run should have done when it returns or raises. -/
structure CleanedUp (args : Args) (env : Env) (w₀ : World Unit) : Prop where
  /-- The controls saved before the configuration was written are restored. -/
  restored : ∀ st, (final (run scripted args env) w₀).snapshot = some st →
    (final (run scripted args env) w₀).restored = true ∧
      (final (run scripted args env) w₀).settings = st
  runEnd : (final (run scripted args env) w₀).runEndCalled = true
  /-- No process of a launched command is left. -/
  terminated : (final (run scripted args env) w₀).launched = true →
    (final (run scripted args env) w₀).killed = true ∨
      (env.leaderRuns = false ∧ env.othersRun = false)
  /-- The session raises no error of its own. -/
  noOwnError : env.prepareFails = none →
    ∀ e w, runBody scripted args env w₀ = .error e w → e.isOwn = false
  reported : args.doReport = true → returns (run scripted args env) w₀ = true →
    Reported args (final (run scripted args env) w₀)

/-! ### How far a run gets -/

/-- `run_begin` of the agent returns. -/
def begins (args : Args) (env : Env) : Bool :=
  (!args.controlConfig || env.config.isOk) && env.beginFails.isNone

/-- The signals are pushed. -/
def pushes (args : Args) (env : Env) : Bool :=
  begins args env && (numPeriod args).isOk && env.handles.isOk

/-- The controls are saved before the control configuration is written. -/
def saves (args : Args) (env : Env) (par : Option (List (Control × Double))) : Bool :=
  pushes args env && configured args par && env.adjustFails.isNone && env.saveFails.isNone

/-- The control configuration, if there is one, is written. -/
def writes (args : Args) (env : Env) (par : Option (List (Control × Double))) : Bool :=
  pushes args env &&
    (!configured args par || (saves args env par && env.writeFails.isNone))

/-- The first samples are there. -/
def reads (args : Args) (env : Env) (par : Option (List (Control × Double))) : Bool :=
  writes args env par && env.firstFails.isNone && match env.handles with
    | .ok handles =>
      !(handles.any fun h => (env.firstSamples h).isNan) || env.purgeFails.isNone
    | .error _ => false

/-- The command is launched. -/
def launches (args : Args) (env : Env) (par : Option (List (Control × Double))) : Bool :=
  reads args env par && args.launch != [] && env.popenFails.isNone

/-- The sampling loop begins. -/
def loops (args : Args) (env : Env) (par : Option (List (Control × Double))) : Bool :=
  reads args env par && (args.launch == [] || env.popenFails.isNone) &&
    (!args.readyFd || env.readyFails.isNone)

/-- The number of periods cannot be computed, or the loop divides by zero. -/
def ownFails (args : Args) (env : Env) (par : Option (List (Control × Double))) : Bool :=
  match numPeriod args with
  | .ok num => loops args env par && dividesByZero args num env.ticks
  | .error _ => begins args env

/-- Nothing keeps the run from cleaning up. -/
structure Undisturbed (args : Args) (env : Env) (par : Option (List (Control × Double))) :
    Prop where
  prepare : env.prepareFails = none
  flush : args.outStream = true → env.flushFails = none
  report : args.doReport = true → env.finalReportFails = none
  restore : saves args env par = true → env.endFails = none ∧ env.restoreFails = none
  /-- The command and its process group have ended by themselves. -/
  ended : launches args env par = true → env.leaderRuns = false ∧ env.othersRun = false
  noOwnError : ownFails args env par = false

/-! ### The statements under the `try` -/

/-- Nothing is restored, called or ended yet; `s` says whether the controls have been saved for the
control configuration, and `l` whether the command has been launched. -/
structure Marked (s l : Bool) (w : World Unit) : Prop where
  snapshot : w.snapshot.isSome = s
  saved : ∀ st, w.snapshot = some st → w.saved = some st
  launched : w.launched = l
  killed : w.killed = false
  restored : w.restored = false
  runEnd : w.runEndCalled = false

theorem Marked.of_marks {s l : Bool} {w w' : World Unit} (hm : Marked s l w)
    (h : w'.marks = w.marks) : Marked s l w' := by
  simp only [marks, Prod.mk.injEq] at h
  obtain ⟨hsnap, hsaved, hlaunched, hkilled, hrestored, hend⟩ := h
  exact ⟨hsnap ▸ hm.snapshot, fun st hst => hsaved ▸ hm.saved st (hsnap ▸ hst),
    hlaunched ▸ hm.launched, hkilled ▸ hm.killed, hrestored ▸ hm.restored, hend ▸ hm.runEnd⟩

/-- The marks without what is saved: before the control configuration that may be anything. -/
def World.early {α : Type} (w : World α) : Option Settings × Bool × Bool × Bool × Bool :=
  (w.snapshot, w.launched, w.killed, w.restored, w.runEndCalled)

theorem marked_of_early {w : World Unit} (h : w.early = (none, false, false, false, false)) :
    Marked false false w := by
  simp only [World.early, Prod.mk.injEq] at h
  obtain ⟨hsnap, hlaunched, hkilled, hrestored, hend⟩ := h
  refine ⟨by rw [hsnap]; rfl, fun st hst => ?_, hlaunched, hkilled, hrestored, hend⟩
  rw [hsnap] at hst
  cases hst

section Stages

variable {args : Args} {env : Env} {w : World Unit}

theorem readConfig_spec :
    wp (readConfig args env)
      (fun _ w' => (!args.controlConfig || env.config.isOk) = true ∧
        (w'.early, w'.record) = (w.early, w.record) ∧
        w'.adjustPar.isSome = configured args w.adjustPar)
      (fun e w' => (!args.controlConfig || env.config.isOk) = false ∧ e.isOwn = false ∧
        w'.early = w.early) w := by
  unfold readConfig configured
  rw [wp_ite]
  refine ⟨fun hc => ?_, fun hc => ?_⟩
  · rw [hc, wp_bind, wp_ofExcept]
    refine ⟨fun par hpar => ?_, fun e he => ?_⟩
    · rw [hpar]
      exact ⟨rfl, rfl, rfl⟩
    · rw [he]
      exact ⟨rfl, rfl, rfl⟩
  · rw [Bool.not_eq_true] at hc
    rw [hc]
    exact ⟨rfl, rfl, rfl⟩

theorem guarded_runBegin : Guarded env.beginFails.isNone (scripted.runBegin env) := by
  have hsave : Guarded true (if env.beginSaves then Pio.saveControl none else pure ()) := by
    have h := ((guarded_attempt none).modify fun w : World Unit =>
      { w with saved := some w.settings, saves := w.saves ++ [w.settings] }).when
        (p := env.beginSaves = true) (c := !env.beginSaves) (by simp)
    rw [Option.isNone_none, Bool.or_true] at h
    exact h
  exact (Bool.true_and env.beginFails.isNone) ▸
    hsave.bind fun _ => fun w => guarded_attempt env.beginFails _

theorem keeps_runBegin :
    Prog.Keeps (fun w => (w.early, w.record, w.adjustPar)) (scripted.runBegin env) := by
  refine Prog.Keeps.bind (.ite ?_ (.pure ())) fun _ => ?_
  · exact Prog.Keeps.bind (keeps_attempt _) fun _ => .modify fun _ => rfl
  · exact Prog.Keeps.bind (.modify fun _ => rfl) fun _ => keeps_attempt _

/-- The controls are saved before the control configuration is written. -/
theorem writeConfig_spec (hw : w.early = (none, false, false, false, false)) :
    wp (writeConfig env)
      (fun _ w' => (!w.adjustPar.isSome || (env.adjustFails.isNone && env.saveFails.isNone &&
          env.writeFails.isNone)) = true ∧
        Marked (w.adjustPar.isSome && env.adjustFails.isNone && env.saveFails.isNone) false w' ∧
        w'.record = w.record)
      (fun e w' => (!w.adjustPar.isSome || (env.adjustFails.isNone && env.saveFails.isNone &&
          env.writeFails.isNone)) = false ∧ e.isOwn = false ∧
        Marked (w.adjustPar.isSome && env.adjustFails.isNone && env.saveFails.isNone) false w')
      w := by
  have hm := marked_of_early hw
  unfold writeConfig
  rw [wp_bind, wp_get]
  cases hpar : w.adjustPar with
  | none => exact ⟨rfl, hm, rfl⟩
  | some par =>
    cases ha : env.adjustFails with
    | some e => exact ⟨rfl, rfl, hm⟩
    | none =>
      cases hs : env.saveFails with
      | some e => exact ⟨rfl, rfl, hm.of_marks rfl⟩
      | none =>
        have hm' : ∀ w' : World Unit, w'.marks =
            (some w.settings, some w.settings, w.launched, w.killed, w.restored, w.runEndCalled) →
            Marked true false w' := by
          intro w' h
          simp only [marks, Prod.mk.injEq] at h
          obtain ⟨hsnap, hsaved, hlaunched, hkilled, hrestored, hend⟩ := h
          exact ⟨by rw [hsnap]; rfl, fun st hst => by rw [hsaved, ← hst, hsnap],
            hlaunched.trans hm.launched, hkilled.trans hm.killed, hrestored.trans hm.restored,
            hend.trans hm.runEnd⟩
        cases hf : env.writeFails with
        | some f => exact ⟨rfl, rfl, hm' _ rfl⟩
        | none => exact ⟨rfl, hm' _ rfl, rfl⟩

theorem keeps_firstRead {handles : List ℕ} :
    Prog.Keeps (fun w => (w.marks, w.record)) (firstRead env handles : Py Unit Unit) := by
  have hread : ∀ (o : Option External) (samples : ℕ → Double),
      Prog.Keeps (fun w => (w.marks, w.record)) (Pio.readBatch o samples : Py Unit Unit) :=
    fun _ _ => Prog.Keeps.bind (keeps_attempt _) fun _ => .modify fun _ => rfl
  exact Prog.Keeps.bind (hread _ _) fun _ => .bind .get fun _ => .ite (hread _ _) (.pure ())

theorem guarded_firstRead {handles : List ℕ} :
    Guarded (env.firstFails.isNone &&
      (!(handles.any fun h => (env.firstSamples h).isNan) || env.purgeFails.isNone))
      (firstRead env handles) := by
  intro w
  unfold firstRead Pio.readBatch
  rw [wp_bind, wp_bind, wp_attempt]
  refine ⟨fun hf => ?_, fun e he => by rw [he]; exact ⟨rfl, rfl⟩⟩
  rw [hf, wp_modify, wp_bind, wp_get]
  exact (((guarded_attempt env.purgeFails).modify _).when (by simp)) _

theorem launchAndTell_spec {s : Bool} (hm : Marked s false w) :
    wp (launchAndTell args env)
      (fun _ w' => ((args.launch == [] || env.popenFails.isNone) &&
          (!args.readyFd || env.readyFails.isNone)) = true ∧
        Marked s (args.launch != [] && env.popenFails.isNone) w' ∧ w'.record = w.record)
      (fun e w' => ((args.launch == [] || env.popenFails.isNone) &&
          (!args.readyFd || env.readyFails.isNone)) = false ∧ e.isOwn = false ∧
        Marked s (args.launch != [] && env.popenFails.isNone) w') w := by
  have hready : ∀ w₁ : World Unit,
      Marked s (args.launch != [] && env.popenFails.isNone) w₁ → w₁.record = w.record →
      wp (if args.readyFd then attempt env.readyFails else return : Py Unit Unit)
        (fun _ w' => (!args.readyFd || env.readyFails.isNone) = true ∧
          Marked s (args.launch != [] && env.popenFails.isNone) w' ∧ w'.record = w.record)
        (fun e w' => (!args.readyFd || env.readyFails.isNone) = false ∧ e.isOwn = false ∧
          Marked s (args.launch != [] && env.popenFails.isNone) w') w₁ := by
    intro w₁ hm₁ hrec
    have hkeeps : Prog.Keeps id
        (if args.readyFd then attempt env.readyFails else return : Py Unit Unit) :=
      .ite (keeps_attempt _) (.pure ())
    refine wp_mono (wp_and ((guarded_attempt env.readyFails).when (c := !args.readyFd) (by simp) w₁)
      (hkeeps w₁)) (fun _ w' h => ?_) fun e w' h => ?_
    · rw [show w' = w₁ from h.2]
      exact ⟨h.1, hm₁, hrec⟩
    · rw [show w' = w₁ from h.2]
      exact ⟨h.1.1, h.1.2, hm₁⟩
  unfold launchAndTell
  rw [wp_bind, wp_ite]
  refine ⟨fun hl => ?_, fun hl => ?_⟩
  · have hl₁ : (args.launch == []) = false := by simpa using hl
    have hl₂ : (args.launch != []) = true := by simpa using hl
    simp only [hl₁, hl₂, Bool.false_or, Bool.true_and] at hready ⊢
    rw [wp_bind, wp_attempt]
    refine ⟨fun hp => ?_, fun e he => ?_⟩
    · simp only [hp, Option.isNone_none, Bool.true_and] at hready ⊢
      exact hready _ ⟨hm.snapshot, hm.saved, rfl, hm.killed, hm.restored, hm.runEnd⟩ rfl
    · rw [he]
      exact ⟨rfl, rfl, hm⟩
  · have hl₁ : (args.launch == []) = true := by simpa using hl
    have hl₂ : (args.launch != []) = false := by simpa using hl
    simp only [hl₁, hl₂, Bool.true_or, Bool.true_and, Bool.false_and] at hready ⊢
    exact hready w hm rfl

theorem stops_of_not_pushes (par : Option (List (Control × Double)))
    (h : pushes args env = false) :
    saves args env par = false ∧ launches args env par = false ∧ loops args env par = false := by
  simp [saves, launches, loops, reads, writes, h]

variable {par : Option (List (Control × Double))}

theorem stops_of_not_reads
    (h : reads args env par = false) :
    launches args env par = false ∧ loops args env par = false := by
  simp [launches, loops, h]

theorem ownFails_of_not_loops {num : Option ℤ}
    (hnum : numPeriod args = .ok num) (h : loops args env par = false) :
    ownFails args env par = false := by
  unfold ownFails
  rw [hnum, h]
  rfl

/-- `Session.run_read`: how far it gets decides what is left to clean up. -/
theorem runRead_spec (hbegins : begins args env = true)
    (hpar : w.adjustPar.isSome = configured args par)
    (hw : w.early = (none, false, false, false, false)) (hrec : w.record = (0, [], [])) :
    wp (runRead scripted args env)
      (fun _ w' => Marked (saves args env par) (launches args env par) w' ∧
        ownFails args env par = false ∧ (args.doReport = true → ∃ m, Reporting args m w'))
      (fun e w' => Marked (saves args env par) (launches args env par) w' ∧
        e.isOwn = ownFails args env par) w := by
  unfold runRead
  rw [wp_bind, wp_ofExcept]
  refine ⟨fun num hnum => ?_, fun e he => ?_⟩
  rotate_left
  · -- the number of periods cannot be computed
    have hp : pushes args env = false := by simp [pushes, he, Except.isOk, Except.toBool]
    obtain ⟨hs, hl, -⟩ := stops_of_not_pushes par hp
    have ho : ownFails args env par = true := by unfold ownFails; rw [he]; exact hbegins
    rw [hs, hl, ho]
    exact ⟨marked_of_early hw, rfl⟩
  have hnum' : (numPeriod args).isOk = true := by rw [hnum]; rfl
  rw [wp_bind, wp_ofExcept]
  refine ⟨fun handles hh => ?_, fun e he => ?_⟩
  rotate_left
  · -- a signal cannot be pushed
    have hp : pushes args env = false := by simp [pushes, he, Except.isOk, Except.toBool]
    obtain ⟨hs, hl, hloops⟩ := stops_of_not_pushes par hp
    rw [hs, hl, ownFails_of_not_loops hnum hloops]
    exact ⟨marked_of_early hw, rfl⟩
  have hpushes : pushes args env = true := by
    rw [pushes, hbegins, hnum', hh]
    rfl
  have hsaves : saves args env par =
      (w.adjustPar.isSome && env.adjustFails.isNone && env.saveFails.isNone) := by
    rw [saves, hpushes, hpar, Bool.true_and]
  have hwrites : writes args env par = (!w.adjustPar.isSome ||
      (env.adjustFails.isNone && env.saveFails.isNone && env.writeFails.isNone)) := by
    rw [writes, hsaves, hpushes, ← hpar]
    cases w.adjustPar.isSome <;> simp
  rw [wp_bind, hsaves]
  refine wp_mono (writeConfig_spec hw) (fun _ w₁ h₁ => ?_) fun e w' h => ?_
  rotate_left
  · -- the control configuration cannot be written
    obtain ⟨hstop, he, hm⟩ := h
    obtain ⟨hl, hloops⟩ : launches args env par = false ∧ loops args env par = false :=
      stops_of_not_reads (by rw [reads, hwrites, hstop]; rfl)
    rw [hl, ownFails_of_not_loops hnum hloops]
    exact ⟨hm, he⟩
  obtain ⟨hwrote, hm₁, hrec₁⟩ := h₁
  rw [hwrote] at hwrites
  rw [wp_bind]
  refine wp_mono (wp_and (guarded_firstRead w₁) (keeps_firstRead w₁)) (fun _ w₂ h₂ => ?_)
    fun e w' h => ?_
  rotate_left
  · -- there is no first sample
    obtain ⟨⟨hstop, he⟩, hkeeps⟩ := h
    have hreads : reads args env par = false := by
      unfold reads
      rw [hwrites, hh]
      exact hstop
    obtain ⟨hl, hloops⟩ := stops_of_not_reads hreads
    rw [hl, ownFails_of_not_loops hnum hloops]
    exact ⟨hm₁.of_marks (Prod.mk.inj hkeeps).1, he⟩
  obtain ⟨hread, hkeeps⟩ := h₂
  have hreads : reads args env par = true := by
    unfold reads
    rw [hwrites, hh]
    exact hread
  obtain ⟨hmarks₂, hrec₂⟩ := Prod.mk.inj hkeeps
  have hlaunches : launches args env par = (args.launch != [] && env.popenFails.isNone) := by
    rw [launches, hreads, Bool.true_and]
  rw [wp_bind, hlaunches]
  refine wp_mono (launchAndTell_spec (hm₁.of_marks hmarks₂)) (fun _ w₃ h₃ => ?_) fun e w' h => ?_
  rotate_left
  · -- the command cannot be launched, or the parent of the daemon cannot be told
    obtain ⟨hstop, he, hm⟩ := h
    have hloops : loops args env par = false := by
      rw [loops, hreads, Bool.true_and]
      exact hstop
    rw [ownFails_of_not_loops hnum hloops]
    exact ⟨hm, he⟩
  obtain ⟨htold, hm₃, hrec₃⟩ := h₃
  have hloops : loops args env par = true := by
    rw [loops, hreads, Bool.true_and]
    exact htold
  have ho : ownFails args env par = dividesByZero args num env.ticks := by
    unfold ownFails
    rw [hnum, hloops]
    exact Bool.true_and _
  have hrecord : w₃.record = (0, [], []) := ((hrec₃.trans hrec₂).trans hrec₁).trans hrec
  have hreport : wp (samplingLoop scripted args num env.signum 0 env.ticks)
      (fun _ w' => args.doReport = true → ∃ m, Reporting args m w') (fun _ _ => True) w₃ := by
    by_cases hdo : args.doReport = true
    · obtain ⟨hcur, hrep⟩ := reporting_of_record hrecord
      exact wp_mono_ok (samplingLoop_reporting hdo hrep hcur) fun _ _ h _ => h
    · exact wp_mono (keeps_marks w₃) (fun _ _ _ h => absurd h hdo) fun _ _ _ => trivial
  rw [ho]
  refine wp_mono (wp_and (wp_and (samplingLoop_own w₃) (keeps_marks w₃)) hreport)
    (fun _ w' h => ⟨hm₃.of_marks h.1.2, h.1.1, h.2⟩) fun e w' h => ⟨hm₃.of_marks h.1.2, h.1.1⟩

/-- The statements under the `try`. -/
theorem runBody_spec (hw : w.early = (none, false, false, false, false))
    (hrec : w.record = (0, [], [])) :
    wp (runBody scripted args env)
      (fun _ w' => Marked (saves args env w.adjustPar) (launches args env w.adjustPar) w' ∧
        ownFails args env w.adjustPar = false ∧
        (args.doReport = true → ∃ m, Reporting args m w'))
      (fun e w' => Marked (saves args env w.adjustPar) (launches args env w.adjustPar) w' ∧
        e.isOwn = ownFails args env w.adjustPar) w := by
  have hfails : begins args env = false → ownFails args env w.adjustPar = false := by
    intro hb
    unfold ownFails
    split
    · simp [loops, reads, writes, pushes, hb]
    · exact hb
  have hstops : begins args env = false → ∀ (e : Raised) (w' : World Unit), e.isOwn = false →
      w'.early = (none, false, false, false, false) →
      Marked (saves args env w.adjustPar) (launches args env w.adjustPar) w' ∧
        e.isOwn = ownFails args env w.adjustPar := by
    intro hb e w' he hearly
    have hp : pushes args env = false := by simp [pushes, hb]
    obtain ⟨hs, hl, -⟩ := stops_of_not_pushes w.adjustPar hp
    rw [hs, hl, hfails hb]
    exact ⟨marked_of_early hearly, he⟩
  unfold runBody
  rw [wp_bind]
  refine wp_mono readConfig_spec (fun _ w₁ h₁ => ?_) fun e w' h => ?_
  rotate_left
  · exact hstops (by simp [begins, h.1]) e w' h.2.1 (h.2.2.trans hw)
  obtain ⟨hread, hkeeps₁, hpar₁⟩ := h₁
  obtain ⟨hearly₁, hrec₁⟩ := Prod.mk.inj hkeeps₁
  rw [wp_bind]
  refine wp_mono (wp_and (guarded_runBegin w₁) (keeps_runBegin w₁)) (fun _ w₂ h₂ => ?_)
    fun e w' h => ?_
  rotate_left
  · exact hstops (by simp [begins, h.1.1]) e w' h.1.2 ((Prod.mk.inj h.2).1.trans (hearly₁.trans hw))
  obtain ⟨hbegun, hkeeps₂⟩ := h₂
  simp only [Prod.mk.injEq] at hkeeps₂
  obtain ⟨hearly₂, hrec₂, hpar₂⟩ := hkeeps₂
  exact runRead_spec (by rw [begins, hread, hbegun]; rfl) (by rw [hpar₂, hpar₁])
    (hearly₂.trans (hearly₁.trans hw)) (hrec₂.trans (hrec₁.trans hrec))

/-! ### The clean-up -/

/-- `stop` gets to `run_end` of the agent. -/
def reachesEnd (args : Args) (env : Env) : Bool :=
  (!args.outStream || env.flushFails.isNone) && (!args.doReport || env.finalReportFails.isNone)

/-- What `stop` has done when it returns or raises. -/
structure Stopped (args : Args) (env : Env) (w w' : World Unit) : Prop where
  snapshot : w'.snapshot = w.snapshot
  launched : w'.launched = w.launched
  killed : w'.killed = w.killed
  runEnd : w'.runEndCalled = reachesEnd args env
  restored : w'.restored = (reachesEnd args env && env.endFails.isNone &&
    env.restoreFails.isNone && w.saved.isSome)
  settings : w'.restored = true → w.saved = some w'.settings

/-- `os.killpg` is given `None` for the signal, so nothing is ended. -/
theorem keeps_killSubp {τ : Type} {view : World Unit → τ} : Prog.Keeps view (killSubp env none) :=
  Prog.Keeps.bind .get fun _ => .ite (.pure ()) (.pure ())

/-- What `pio.restore_control` has done, also when its error is caught. -/
def Restores (o : Option (External × Settings)) (w w' : World Unit) : Prop :=
  (∃ st, w.saved = some st ∧ o = none ∧ w' = { w with settings := st, restored := true }) ∨
    ((o.isNone && w.saved.isSome) = false ∧ w'.marks = w.marks)

theorem restoreControl_spec {o : Option (External × Settings)} :
    wp (Pio.restoreControl o) (fun _ w' => Restores o w w') (fun _ w' => Restores o w w') w := by
  unfold Pio.restoreControl
  rw [wp_bind, wp_get]
  cases hs : w.saved with
  | none => exact .inr ⟨by rw [hs]; exact Bool.and_false _, rfl⟩
  | some st =>
    cases o with
    | none => exact .inl ⟨st, hs, rfl, rfl⟩
    | some f => exact .inr ⟨rfl, rfl⟩

/-- `stop` restores the controls when none of its steps before has raised. -/
theorem stop_spec {s l : Bool} (hm : Marked s l w) :
    wp (stop scripted args env none) (fun _ w' => Stopped args env w w')
      (fun _ w' => Stopped args env w w') w := by
  have hreport : Prog.Keeps marks (writeReport env.finalReportFails : Py Unit Unit) :=
    keeps_writeReport (fun _ _ _ _ _ => rfl) _
  -- what raises before `run_end` leaves everything as it is
  have hraised : ∀ w₁ : World Unit, w₁.marks = w.marks → reachesEnd args env = false →
      Stopped args env w w₁ := by
    intro w₁ h hr
    simp only [marks, Prod.mk.injEq] at h
    obtain ⟨hsnap, -, hlaunched, hkilled, hrestored, hend⟩ := h
    refine ⟨hsnap, hlaunched, hkilled, ?_, ?_, fun hres => ?_⟩
    · rw [hr, hend, hm.runEnd]
    · rw [hr, hrestored, hm.restored]
      rfl
    · rw [hrestored, hm.restored] at hres
      cases hres
  unfold stop
  rw [wp_bind]
  refine wp_mono (wp_and
      ((guarded_attempt env.flushFails).when (c := !args.outStream) (by simp) w)
      ((Prog.Keeps.ite (keeps_attempt _) (.pure ()) : Prog.Keeps marks _) w))
    (fun _ w₁ h₁ => ?_) fun _ w₁ h₁ => hraised w₁ h₁.2 (by rw [reachesEnd, h₁.1.1]; rfl)
  rw [wp_bind]
  refine wp_mono (wp_and
      ((guarded_writeReport env.finalReportFails).when (c := !args.doReport) (by simp) w₁)
      ((Prog.Keeps.ite hreport (.pure ()) : Prog.Keeps marks _) w₁))
    (fun _ w₂ h₂ => ?_) fun _ w₂ h₂ =>
      hraised w₂ (h₂.2.trans h₁.2) (by rw [reachesEnd, h₁.1, h₂.1.1]; rfl)
  have hreach : reachesEnd args env = true := by rw [reachesEnd, h₁.1, h₂.1]; rfl
  have hmarks : w₂.marks = w.marks := h₂.2.trans h₁.2
  simp only [marks, Prod.mk.injEq] at hmarks
  obtain ⟨hsnap, hsaved, hlaunched, hkilled, hrestored, -⟩ := hmarks
  have hnot : w₂.restored = false := hrestored.trans hm.restored
  -- what holds as long as nothing has been restored
  have hunrestored : ∀ w₃ : World Unit,
      w₃.marks = { w₂ with runEndCalled := true }.marks →
      (env.endFails.isNone && env.restoreFails.isNone && w.saved.isSome) = false →
      Stopped args env w w₃ := by
    intro w₃ h hb
    simp only [marks, Prod.mk.injEq] at h
    obtain ⟨hsnap₃, -, hlaunched₃, hkilled₃, hrestored₃, hend₃⟩ := h
    refine ⟨hsnap₃.trans hsnap, hlaunched₃.trans hlaunched, hkilled₃.trans hkilled, ?_, ?_,
      fun hres => ?_⟩
    · rw [hreach, hend₃]
    · rw [hreach, hrestored₃, hnot, Bool.true_and, hb]
    · rw [hrestored₃, hnot] at hres
      cases hres
  rw [wp_bind, wp_modify, wp_bind]
  cases hef : env.endFails with
  | some e =>
    change wp (attempt env.endFails) _ _ _
    rw [hef]
    exact hunrestored _ rfl (by rw [hef]; rfl)
  | none =>
    change wp (attempt env.endFails) _ _ _
    rw [hef, wp_attempt]
    refine ⟨fun _ => ?_, nofun⟩
    rw [wp_bind, wp_tryCatch]
    have hrestores : ∀ w₃ : World Unit,
        Restores env.restoreFails { w₂ with runEndCalled := true } w₃ →
        Stopped args env w w₃ := by
      rintro w₃ (⟨st, hs, hf, rfl⟩ | ⟨hb, h⟩)
      · have hs' : w.saved = some st := hsaved.symm.trans hs
        refine ⟨hsnap, hlaunched, hkilled, hreach.symm, ?_, fun _ => hs'⟩
        rw [hreach, hef, hf, hs']
        rfl
      · refine hunrestored w₃ h ?_
        rw [hef, ← hsaved]
        exact hb
    have hkill : ∀ w₃ : World Unit, Stopped args env w w₃ → wp (killSubp env none)
        (fun _ w' => Stopped args env w w') (fun _ w' => Stopped args env w w') w₃ := by
      intro w₃ h
      have hkeeps : Prog.Keeps id (killSubp (α := Unit) env none) := keeps_killSubp
      exact wp_mono (hkeeps w₃) (fun _ w' h' => (show w' = w₃ from h') ▸ h)
        fun _ w' h' => (show w' = w₃ from h') ▸ h
    refine wp_mono restoreControl_spec (fun _ w₃ h => hkill w₃ (hrestores w₃ h)) fun e w₃ h => ?_
    split
    · exact hkill w₃ (hrestores w₃ h)
    · exact hrestores w₃ h

/-- After a run of the loop that returned, the last report is written. -/
theorem stop_reported {m : ℕ} (hdo : args.doReport = true) (h : Reporting args m w) :
    wp (stop scripted args env none) (fun _ w' => Reported args w') (fun _ _ => True) w := by
  have hflush : Prog.Keeps id (if args.outStream then attempt env.flushFails else pure () : Py Unit Unit) :=
    .ite (keeps_attempt _) (.pure ())
  have hrestore : Prog.Keeps World.record (Pio.restoreControl env.restoreFails : Py Unit Unit) := by
    refine Prog.Keeps.bind .get fun w => ?_
    split
    · exact .throw _
    · exact .modify fun _ => rfl
    · exact .bind (.modify fun _ => rfl) fun _ => .throw _
  have hrest : ∀ {rest : Py Unit Unit} {w₁ : World Unit}, Prog.Keeps World.record rest →
      Reported args w₁ → wp rest (fun _ w' => Reported args w') (fun _ _ => True) w₁ := by
    intro rest w₁ hkeeps h₁
    refine wp_mono (hkeeps w₁) (fun _ w' h' => ?_) fun _ _ _ => trivial
    simp only [World.record, Prod.mk.injEq] at h'
    exact ⟨by rw [h'.2.2, h'.1]; exact h₁.once, by rw [h'.2.2]; exact h₁.closed⟩
  unfold stop
  rw [wp_bind]
  refine wp_mono (hflush w) (fun _ w₁ h₁ => ?_) fun _ _ _ => trivial
  rw [wp_bind, if_pos hdo, show w₁ = w from h₁]
  unfold writeReport
  rw [wp_bind, wp_attempt]
  refine ⟨fun _ => ?_, fun _ _ => trivial⟩
  rw [wp_modify]
  refine hrest (.bind (.modify fun _ => rfl) fun _ => .bind (keeps_attempt _) fun _ =>
    .bind (.tryCatch hrestore fun e => ?_) fun _ => keeps_killSubp) ?_
  · split
    · exact .pure ()
    · exact .throw _
  · split_ifs with hup
    · exact h.reported hup
    · have hwritten : Reporting args m
          { w with reports := w.reports ++ [w.updates], updates := [] } := h.write rfl rfl rfl
      have hreported := hwritten.reported rfl
      exact ⟨hreported.once, hreported.closed⟩

/-! ### The whole run -/

/-- A run gets to its clean-up when what comes before the `try` does not raise. -/
theorem run_spec (h : checkReadArgs args = .ok ())
    (hw : w.early = (none, false, false, false, false)) (hrec : w.record = (0, [], [])) :
    wp (run scripted args env)
      (fun _ w' => (env.prepareFails = none ∧ ∃ w₁,
        Marked (saves args env w.adjustPar) (launches args env w.adjustPar) w₁ ∧
          Stopped args env w₁ w') ∧ (args.doReport = true → Reported args w'))
      (fun _ w' => (env.prepareFails = none ∧ ∃ w₁,
        Marked (saves args env w.adjustPar) (launches args env w.adjustPar) w₁ ∧
          Stopped args env w₁ w') ∨ (env.prepareFails ≠ none ∧ w' = w)) w := by
  unfold run
  rw [h, wp_bind, wp_ofExcept]
  refine ⟨fun _ _ => ?_, nofun⟩
  rw [wp_bind, wp_attempt]
  refine ⟨fun hp => ?_, fun e he => .inr ⟨by rw [he]; exact nofun, rfl⟩⟩
  rw [wp_tryFinally]
  refine wp_mono (runBody_spec hw hrec) (fun _ w₁ h₁ => ?_) fun e w₁ h₁ => ?_
  · obtain ⟨hm, -, hrep⟩ := h₁
    have hreported : wp (stop scripted args env none)
        (fun _ w' => args.doReport = true → Reported args w') (fun _ _ => True) w₁ := by
      by_cases hdo : args.doReport = true
      · obtain ⟨m, hm⟩ := hrep hdo
        exact wp_mono_ok (stop_reported hdo hm) fun _ _ h _ => h
      · exact wp_mono (stop_spec hm) (fun _ _ _ h => absurd h hdo) fun _ _ _ => trivial
    exact wp_mono (wp_and (stop_spec hm) hreported) (fun _ _ h => ⟨⟨hp, w₁, hm, h.1⟩, h.2⟩)
      fun _ _ h => .inl ⟨hp, w₁, hm, h.1⟩
  · exact wp_mono (stop_spec h₁.1) (fun _ _ h => .inl ⟨hp, w₁, h₁.1, h⟩)
      fun _ _ h => .inl ⟨hp, w₁, h₁.1, h⟩

end Stages

/-- **A run that `check_read_args` accepts has cleaned up after itself, raises no error of its own
and reports every sample once exactly when nothing keeps it from that.** -/
theorem cleanedUp_iff_undisturbed {args : Args} (env : Env) (effect : Effect)
    (settings : Settings) (saved : Option Settings) (par : Option (List (Control × Double)))
    (h : checkReadArgs args = .ok ()) :
    CleanedUp args env (World.start effect settings saved par ()) ↔ Undisturbed args env par := by
  have hrun : wp (run scripted args env) _ _ (World.start effect settings saved par ()) :=
    run_spec h rfl rfl
  have hbody : wp (runBody scripted args env) _ _ (World.start effect settings saved par ()) :=
    runBody_spec rfl rfl
  have hfinal := wp_final.mp (wp_mono_ok hrun fun _ _ h => .inl h.1)
  have hown : (∀ e w,
      runBody scripted args env (World.start effect settings saved par ()) = .error e w →
      e.isOwn = false) ↔ ownFails args env par = false := by
    unfold wp at hbody
    cases hb : runBody scripted args env (World.start effect settings saved par ()) with
    | ok a w =>
      rw [hb] at hbody
      exact ⟨fun _ => hbody.2.1, fun _ _ _ h => (nomatch h)⟩
    | error e w =>
      rw [hb] at hbody
      refine ⟨fun hall => hbody.2.symm.trans (hall e w rfl), fun ho e' w' heq => ?_⟩
      cases heq
      exact hbody.2.trans ho
  constructor
  · intro hc
    rcases hfinal with ⟨hp, w₁, hm, hs⟩ | ⟨hp, hf⟩
    · have hreach : (!args.outStream || env.flushFails.isNone) = true ∧
          (!args.doReport || env.finalReportFails.isNone) = true := by
        rw [← Bool.and_eq_true]
        exact hs.runEnd.symm.trans hc.runEnd
      refine ⟨hp, fun hout => ?_, fun hdo => ?_, fun hsaves => ?_, fun hl => ?_,
        hown.mp (hc.noOwnError hp)⟩
      · rw [hout] at hreach
        exact Option.isNone_iff_eq_none.mp hreach.1
      · rw [hdo] at hreach
        exact Option.isNone_iff_eq_none.mp hreach.2
      · obtain ⟨st, hst⟩ := Option.isSome_iff_exists.mp (hm.snapshot.trans hsaves)
        have hres := (hc.restored st (hs.snapshot.trans hst)).1
        rw [hs.restored] at hres
        simp only [Bool.and_eq_true, Option.isNone_iff_eq_none] at hres
        exact ⟨hres.1.1.2, hres.1.2⟩
      · rcases hc.terminated (hs.launched.trans (hm.launched.trans hl)) with hk | hend
        · rw [hs.killed, hm.killed] at hk
          cases hk
        · exact hend
    · have hend := hc.runEnd
      rw [hf] at hend
      cases hend
  · intro hu
    rcases hfinal with ⟨hp, w₁, hm, hs⟩ | ⟨hp, -⟩
    · have hreach : reachesEnd args env = true := by
        unfold reachesEnd
        cases hout : args.outStream <;> cases hdo : args.doReport <;>
          simp [hu.flush, hu.report, hout, hdo]
      refine ⟨fun st hst => ?_, hs.runEnd.trans hreach, fun hl => .inr (hu.ended ?_),
        fun _ => hown.mpr hu.noOwnError, fun hdo hret => ?_⟩
      · have hst₁ : w₁.snapshot = some st := hs.snapshot.symm.trans hst
        have hsaves : saves args env par = true := by
          rw [← show w₁.snapshot.isSome = saves args env par from hm.snapshot, hst₁]
          rfl
        obtain ⟨hef, hrf⟩ := hu.restore hsaves
        have hsaved : w₁.saved = some st := hm.saved st hst₁
        have hres := hs.restored
        rw [hreach, hef, hrf, hsaved] at hres
        refine ⟨hres, ?_⟩
        have hset := hs.settings hres
        rw [hsaved] at hset
        exact (Option.some.inj hset).symm
      · exact hm.launched.symm.trans (hs.launched.symm.trans hl)
      · obtain ⟨_, -, hrep⟩ := of_returns hrun hret
        exact hrep hdo
    · exact absurd hu.prepare hp

/-- A session that writes a trace of one sample and a control configuration. -/
def traced : Args where
  runTime := .num 0
  period := .num 0
  quotient := .nan
  pid := none
  reportSamples := none
  launch := []
  readyFd := false
  outStream := true
  doReport := false
  controlConfig := true
  nonneg _ _ h := nomatch h

/-- An iteration in which nothing is raised. -/
def quietTick : Tick where
  sleepFails := none
  timeUp := false
  readFails := none
  samples _ := .num 0
  writes := []
  updateFails := none
  batchFails := none
  traceFails := none
  statsFails := none
  active := .ok true
  reportFails := none
  resetFails := none

/-- A run in which nothing is raised. -/
def quiet : Env where
  prepareFails := none
  config := .ok [(⟨"CPU_FREQUENCY_MAX_CONTROL", 0, 0⟩, .num 2000000000)]
  beginSaves := false
  beginWrites := []
  beginFails := none
  handles := .ok [0]
  adjustFails := none
  saveFails := none
  writeFails := none
  firstFails := none
  firstSamples _ := .num 0
  purgeFails := none
  purgeSamples _ := .num 0
  popenFails := none
  readyFails := none
  ticks := [quietTick]
  signum := 15
  flushFails := none
  finalReportFails := none
  endFails := none
  restoreFails := none
  leaderRuns := false
  othersRun := false
  othersIgnore := false
  ended _ _ _ := rfl

theorem cleanedUp_quiet :
    CleanedUp traced quiet (World.start .itself (fun _ => .num 3000000000) none none ()) :=
  (cleanedUp_iff_undisturbed quiet .itself (fun _ => .num 3000000000) none none rfl).mpr
    ⟨rfl, fun _ => rfl, fun _ => rfl, fun _ => ⟨rfl, rfl⟩, fun _ => ⟨rfl, rfl⟩, rfl⟩

/-- When the trace cannot be flushed, `run_end` is not called and the controls stay as the control
configuration has set them. -/
theorem flush_failure_skips_restore :
    ¬ ∀ (args : Args) (env : Env) (effect : Effect) (settings : Settings) (saved : Option Settings)
      (par : Option (List (Control × Double))), checkReadArgs args = .ok () →
      CleanedUp args env (World.start effect settings saved par ()) := by
  intro h
  have hend := (h traced { quiet with flushFails := some .other } .itself
    (fun _ => .num 3000000000) none none rfl).runEnd
  cases hend

end Session

end Geopm
