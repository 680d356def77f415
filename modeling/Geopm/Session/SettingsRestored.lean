import Geopm.Session.Agents
import Geopm.Session.Cleanup

/-!
# The settings that a session gives back

`pio` has one place for the saved settings, and the agent and the control configuration both save.

* `Behaves` : when an agent saves, and what it has written before the control configuration;
* `Heatmap.behaves`, `GpuActivity.behaves`, `behaves_idle` : the agents of the package;
* `slot_of_run` : what a run that returns has saved, and what it leaves;
* `givesBack_iff` : the settings are given back, and nothing else is ever saved, exactly when the
  agent has changed nothing before the control configuration saves.

`HeatmapAgent` saves and then enables counters in `run_begin`; the control configuration saves again,
with the counters enabled.
-/

namespace Geopm

namespace Session

open Prog

variable {α : Type}

/-! ### What an agent does to the controls -/

/-- What the settings and what is saved are made of. -/
def World.controls (w : World α) :
    Effect × Settings × Option Settings × List Settings × Option (List (Control × Double)) :=
  (w.effect, w.settings, w.saved, w.saves, w.adjustPar)

/-- What is saved. -/
def World.slot (w : World α) : Option Settings × List Settings := (w.saved, w.saves)

/-- What an agent in the state `a` does to the controls: `begin` is what becomes of the settings and
of what is saved in `run_begin`, and after it only an agent that has saved writes. -/
structure Behaves (agent : Agent α) (a : α) (first : Bool)
    (change : Effect → Settings → Settings) : Prop where
  begin : ∀ env w, w.agent = a → wp (agent.runBegin env)
    (fun _ w' => w'.controls = if first
      then (w.effect, change w.effect w.settings, some w.settings, w.saves ++ [w.settings],
        w.adjustPar)
      else w.controls)
    (fun _ _ => True) w
  loop : ∀ t, Prog.Keeps World.slot (agent.updateLoop t)
  loopSettings : first = false → ∀ t, Prog.Keeps World.settings (agent.updateLoop t)
  finish : ∀ env, Prog.Keeps World.controls (agent.runEnd env)

theorem behaves_idle : Behaves idle () false fun _ st => st where
  begin _ _ _ := rfl
  loop _ := .pure ()
  loopSettings _ _ := .pure ()
  finish _ := .pure ()

/-! ### The heatmap agent -/

namespace Heatmap

variable {m : Machine} {w : World Heatmap}

/-- The controls that enable the counters of one name. -/
def controlsOf (m : Machine) (name : String) : List Control :=
  match m.controlDomain name with
  | .ok domain => (List.range (m.numDomain domain)).map fun idx : ℕ => ⟨name, domain, idx⟩
  | .error _ => []

/-- The settings after the counters have been enabled: writes that fail are left out. -/
def enabled (m : Machine) (effect : Effect) (st : Settings) (cs : List Control) : Settings :=
  (cs.filter fun c => m.writeFails c = none).foldl
    (fun st c => st.write effect (c, .num 1)) st

/-- The agent enables counters in `run_begin`. -/
def enables (m : Machine) (a : Heatmap) : Bool :=
  let a := resolveIpcPackages m a
  !(a.countersEnabled || a.ipcPackages = [] || enableControls m = [])

theorem controlsOf_ok {name : String} {domain : ℤ} (h : m.controlDomain name = .ok domain) :
    controlsOf m name =
      (List.range (m.numDomain domain)).flatMap fun idx => [⟨name, domain, (idx : ℕ)⟩] := by
  unfold controlsOf
  rw [h]
  exact List.map_eq_flatMap

theorem enabled_append (effect : Effect) (st : Settings) (cs cs' : List Control) :
    enabled m effect st (cs ++ cs') = enabled m effect (enabled m effect st cs) cs' := by
  simp [enabled]

theorem enableCounter_spec (c : Control) :
    wp (enableCounter m c)
      (fun _ w' => w' = { w with settings := enabled m w.effect w.settings [c] })
      (fun _ _ => True) w := by
  unfold enableCounter Pio.writeControl
  rw [wp_tryCatch, wp_bind, wp_attempt]
  refine ⟨fun h => ?_, fun e he => ?_⟩
  · rw [wp_modify]
    simp [enabled, h]
  · split
    · have h : ¬ m.writeFails c = none := by rw [he]; exact nofun
      rw [wp_pure]
      simp [enabled, h]
    · exact trivial

/-- A loop of writes: what one iteration makes of the settings decides what all of them do. -/
theorem forM_enabled {γ : Type} {g : γ → Py Heatmap Unit} {c : γ → List Control} {xs : List γ}
    (hg : ∀ x (w : World Heatmap), wp (g x)
      (fun _ w' => w' = { w with settings := enabled m w.effect w.settings (c x) })
      (fun _ _ => True) w) :
    wp (xs.forM g)
      (fun _ w' => w' = { w with settings := enabled m w.effect w.settings (xs.flatMap c) })
      (fun _ _ => True) w := by
  refine wp_forM_done (I := fun pre w' =>
    w' = { w with settings := enabled m w.effect w.settings (pre.flatMap c) }) rfl ?_
  intro pre x post _ w' hw'
  refine wp_mono_ok (hg x w') fun _ w'' h => ?_
  rw [h, hw', List.flatMap_append, enabled_append, List.flatMap_singleton]

/-- What the counters of a name become. -/
def changed (m : Machine) (effect : Effect) (st : Settings) : Settings :=
  enabled m effect st ((enableControls m).flatMap (controlsOf m))

theorem enableIpcCounters_spec :
    wp (enableIpcCounters m)
      (fun _ w' => w'.controls =
        if !(w.agent.countersEnabled || w.agent.ipcPackages = [] || enableControls m = []) then
          (w.effect, changed m w.effect w.settings, some w.settings, w.saves ++ [w.settings],
            w.adjustPar)
        else w.controls)
      (fun _ _ => True) w := by
  have hname : ∀ name (w : World Heatmap), wp (do
      let domain ← ofExcept .external (m.controlDomain name)
      (List.range (m.numDomain domain)).forM fun idx : ℕ => enableCounter m ⟨name, domain, idx⟩)
      (fun _ w' => w' =
        { w with settings := enabled m w.effect w.settings (controlsOf m name) })
      (fun _ _ => True) w := by
    intro name w
    rw [wp_bind, wp_ofExcept]
    refine ⟨fun domain hd => ?_, fun _ _ => trivial⟩
    refine wp_mono_ok (forM_enabled (c := fun idx => [(⟨name, domain, (idx : ℕ)⟩ : Control)])
      fun idx w => enableCounter_spec _) fun _ w' h => ?_
    rw [h, controlsOf_ok hd]
  unfold enableIpcCounters
  rw [wp_bind, getAgent, wp_bind, wp_get, wp_pure, wp_ite]
  refine ⟨fun hstop => ?_, fun hgo => ?_⟩
  · rw [wp_pure, if_neg (by rw [hstop]; simp)]
  · rw [if_pos (by rw [Bool.not_eq_true _ |>.mp hgo]; rfl), Pio.saveControl, wp_bind, wp_bind, wp_attempt]
    refine ⟨fun _ => ?_, fun _ _ => trivial⟩
    rw [wp_modify, wp_bind]
    refine wp_mono_ok (forM_enabled hname) fun _ w' h => ?_
    rw [h]
    rfl

/-- Until the counters are enabled only the signals become members. -/
theorem keeps_pushSignals : Prog.Keeps (fun w => (w.controls, w.agent.ipcPackages,
    w.agent.ipcResolved, w.agent.countersEnabled)) (pushSignals m) := by
  refine Prog.Keeps.bind (Prog.Keeps.bind .get fun _ => .pure _) fun a => ?_
  refine Prog.Keeps.bind (.ite (.ite (.throw _) (.pure _)) (.pure _)) fun signals => ?_
  refine Prog.Keeps.bind (keeps_ofExcept _ _) fun timeIdx => ?_
  exact Prog.Keeps.bind (.mapM fun _ => keeps_ofExcept _ _) fun _ => .modify fun _ => rfl

theorem resolveIpcPackages_congr {a a' : Heatmap} (hpackages : a.ipcPackages = a'.ipcPackages)
    (hresolved : a.ipcResolved = a'.ipcResolved) (henabled : a.countersEnabled = a'.countersEnabled) :
    (resolveIpcPackages m a).ipcPackages = (resolveIpcPackages m a').ipcPackages ∧
      (resolveIpcPackages m a).countersEnabled = (resolveIpcPackages m a').countersEnabled := by
  unfold resolveIpcPackages
  rw [hresolved]
  split_ifs
  · exact ⟨hpackages, henabled⟩
  · exact ⟨rfl, henabled⟩
  · exact ⟨rfl, henabled⟩

theorem keeps_pushIpc : Prog.Keeps World.controls (pushIpc m) := by
  refine Prog.Keeps.bind (Prog.Keeps.bind .get fun _ => .pure _) fun a => ?_
  refine Prog.Keeps.bind (.mapM fun _ => ?_) fun _ => .modify fun _ => rfl
  exact Prog.Keeps.bind (keeps_ofExcept _ _) fun _ => .bind (keeps_ofExcept _ _) fun _ => .pure _

theorem behaves (ar : Arith) (m : Machine) (a : Heatmap) :
    Behaves (agent ar m) a (enables m a) (changed m) where
  begin env w hw := by
    change wp (attempt env.beginFails >>= fun _ => runBegin m) _ _ w
    rw [wp_bind, wp_attempt]
    refine ⟨fun _ => ?_, fun _ _ => trivial⟩
    unfold runBegin
    rw [wp_bind]
    refine wp_mono (keeps_pushSignals w) (fun _ w₁ h₁ => ?_) fun _ _ _ => trivial
    simp only [Prod.mk.injEq] at h₁
    obtain ⟨hcontrols, hpackages, hresolved, henabled⟩ := h₁
    rw [wp_bind, modifyAgent, wp_modify, wp_bind]
    refine wp_mono enableIpcCounters_spec (fun _ w₂ h₂ => ?_) fun _ _ _ => trivial
    refine wp_mono (keeps_pushIpc w₂) (fun _ w₃ h₃ => ?_) fun _ _ _ => trivial
    obtain ⟨hpackages', henabled'⟩ := resolveIpcPackages_congr (m := m) hpackages hresolved henabled
    simp only [World.controls, Prod.mk.injEq] at hcontrols
    obtain ⟨heffect, hsettings, hsaved, hsaves, hpar⟩ := hcontrols
    rw [h₃, h₂, enables, ← hw, ← hpackages', ← henabled']
    simp only [World.controls, heffect, hsettings, hsaved, hsaves, hpar]
  loop t := .bind (keeps_attempt _) fun _ => .modify fun _ => rfl
  loopSettings _ t := .bind (keeps_attempt _) fun _ => .modify fun _ => rfl
  finish env := keeps_attempt _

end Heatmap

/-! ### The GPU activity agent -/

namespace GpuActivity

variable {ar : Arith} {m : Machine}

theorem keeps_pushDomain {source : ActivitySource} {hasUtilization : Bool} {domain : ℤ} {idx : ℕ} :
    Prog.Keeps World.controls (pushDomain m source hasUtilization domain idx) := by
  refine Prog.Keeps.bind (.ite (keeps_ofExcept _ _) (.pure _)) fun _ => ?_
  refine Prog.Keeps.bind (.ite (keeps_ofExcept _ _) (.pure _)) fun _ => ?_
  refine Prog.Keeps.bind (.ite (keeps_ofExcept _ _) (.pure _)) fun _ => ?_
  exact Prog.Keeps.bind (keeps_ofExcept _ _) fun _ => .bind (keeps_ofExcept _ _) fun _ => .pure _

theorem keeps_resolveDomain {source : ActivitySource} {hasUtilization : Bool} :
    Prog.Keeps World.controls (resolveDomain m source hasUtilization) := by
  refine Prog.Keeps.bind (keeps_ofExcept _ _) fun _ => .bind (keeps_ofExcept _ _) fun _ => ?_
  exact .bind (.mapM fun _ => keeps_ofExcept _ _) fun _ => .ite (.throw _) (.pure _)

theorem keeps_prepare : Prog.Keeps World.controls (prepare ar m) := by
  refine Prog.Keeps.bind (.ite (.throw _) (.pure _)) fun _ => ?_
  refine Prog.Keeps.bind (.ite (.pure _) (.ite (.pure _) (.throw _))) fun source => ?_
  refine Prog.Keeps.bind keeps_resolveDomain fun domain => ?_
  refine Prog.Keeps.bind (.mapM fun _ => keeps_pushDomain) fun domains => ?_
  refine Prog.Keeps.bind (.ite (keeps_ofExcept _ _) (.pure _)) fun timeIdx => ?_
  refine Prog.Keeps.bind (keeps_ofExcept _ _) fun freqMin => .bind (keeps_ofExcept _ _) fun freqMax => ?_
  refine Prog.Keeps.bind ?_ fun efficient => ?_
  · exact .ite (keeps_ofExcept _ _) (.ite (keeps_ofExcept _ _) (.pure _))
  · exact .bind (.ite (.throw _) (.pure _)) fun _ => .modify fun _ => rfl

theorem keeps_updateLoop (t : Tick) : Prog.Keeps World.slot (updateLoop ar t) := by
  have hadjust : ∀ (c : Control) (f : Double),
      Prog.Keeps World.slot (Pio.adjust c f : Py GpuActivity Unit) :=
    fun _ _ => .ite (.throw _) (.modify fun _ => rfl)
  have hdomain : ∀ (sample : ℕ → Double) (timeDelta : Double) (d : GpuDomain),
      Prog.Keeps World.slot (updateDomain ar sample timeDelta d) := by
    intro sample timeDelta d
    refine Prog.Keeps.bind (Prog.Keeps.bind .get fun _ => .pure _) fun a => ?_
    refine Prog.Keeps.bind (.modify fun _ => rfl) fun _ => .ite ?_ (.pure _)
    exact .bind (hadjust _ _) fun _ => .bind (hadjust _ _) fun _ =>
      .bind (.modify fun _ => rfl) fun _ => .pure _
  have hbatch : Prog.Keeps World.slot (Pio.writeBatch t.batchFails : Py GpuActivity Unit) := by
    unfold Pio.writeBatch
    split
    · exact .modify fun _ => rfl
    · exact .bind (.modify fun _ => rfl) fun _ => .throw _
  refine Prog.Keeps.bind (keeps_attempt _) fun _ => .bind (.modify fun _ => rfl) fun _ => ?_
  refine Prog.Keeps.bind (Prog.Keeps.bind .get fun _ => .pure _) fun a => .bind .get fun w => ?_
  refine Prog.Keeps.bind (.mapM fun d => hdomain _ _ d) fun domains => ?_
  exact .bind (.modify fun _ => rfl) fun _ => .ite hbatch (.pure ())

theorem behaves (ar : Arith) (m : Machine) (a : GpuActivity) :
    Behaves (agent ar m) a true fun _ st => st where
  begin env w _ := by
    change wp (attempt env.beginFails >>= fun _ => runBegin ar m) _ _ w
    rw [wp_bind, wp_attempt]
    refine ⟨fun _ => ?_, fun _ _ => trivial⟩
    unfold runBegin Pio.saveControl
    rw [wp_bind]
    refine wp_mono (keeps_prepare w) (fun _ w₁ h₁ => ?_) fun _ _ _ => trivial
    simp only [World.controls, Prod.mk.injEq] at h₁
    obtain ⟨heffect, hsettings, hsaved, hsaves, hpar⟩ := h₁
    rw [wp_bind, wp_attempt]
    refine ⟨fun _ => ?_, fun _ _ => trivial⟩
    simp only [wp_modify, World.controls, if_true, heffect, hsettings, hsaves, hpar]
  loop := keeps_updateLoop
  loopSettings h := nomatch h
  finish env := keeps_attempt _

end GpuActivity

/-! ### A run -/

/-- When `run` has returned, the settings are those it was entered with, and nothing else has been
saved in it. -/
structure GivesBack (w₀ w : World α) : Prop where
  settings : w.settings = w₀.settings
  saves : ∀ st ∈ w.saves, st ∈ w₀.saves ∨ st = w₀.settings

section Run

variable {agent : Agent α} {args : Args} {env : Env} {a : α} {first : Bool}
  {change : Effect → Settings → Settings} {w w₀ : World α}

theorem notSampled_controls : NotSampled (World.controls (α := α)) := fun _ _ _ _ _ => rfl

/-- The control configuration saves once more. -/
theorem writeConfig_slot :
    wp (writeConfig env)
      (fun _ w' => w'.slot = if w.adjustPar.isSome then (some w.settings, w.saves ++ [w.settings])
          else w.slot)
      (fun _ _ => True) w := by
  unfold writeConfig
  rw [wp_bind, wp_get]
  cases hpar : w.adjustPar with
  | none => exact rfl
  | some par =>
    simp only [wp_bind, wp_attempt, wp_modify, Pio.saveControl]
    refine ⟨fun _ => ⟨fun _ => ?_, fun _ _ => trivial⟩, fun _ _ => trivial⟩
    cases hf : env.writeFails with
    | none => exact rfl
    | some f => exact trivial

theorem writeConfig_settings (h : w.adjustPar = none) :
    wp (writeConfig env) (fun _ w' => w' = w) (fun _ _ => True) w := by
  unfold writeConfig
  rw [wp_bind, wp_get, h]
  exact rfl

theorem keeps_runRead {τ : Type} {view : World α → τ} (hview : NotSampled view)
    (hlaunched : ∀ w : World α, view { w with launched := true } = view w)
    (hloop : ∀ t, Prog.Keeps view (agent.updateLoop t)) (handles : List ℕ) (num : Option ℤ) :
    Prog.Keeps view (do
      firstRead env handles
      launchAndTell args env
      samplingLoop agent args num env.signum 0 env.ticks) := by
  have hfirst : Prog.Keeps view (firstRead env handles) :=
    Prog.Keeps.bind (keeps_readBatch hview _ _) fun _ => .bind .get fun _ =>
      .ite (keeps_readBatch hview _ _) (.pure ())
  have hlaunch : Prog.Keeps view (launchAndTell args env) :=
    Prog.Keeps.bind (.ite (.bind (keeps_attempt _) fun _ => .modify hlaunched) (.pure ())) fun _ =>
      .ite (keeps_attempt _) (.pure ())
  exact .bind hfirst fun _ => .bind hlaunch fun _ => keeps_samplingLoop hview hloop

theorem runRead_slot (h : Behaves agent a first change) :
    wp (runRead agent args env)
      (fun _ w' =>
        (w'.slot = if w.adjustPar.isSome then (some w.settings, w.saves ++ [w.settings])
          else w.slot) ∧
        (first = false → w.adjustPar = none → w'.settings = w.settings))
      (fun _ _ => True) w := by
  unfold runRead
  rw [wp_bind, wp_ofExcept]
  refine ⟨fun num _ => ?_, fun _ _ => trivial⟩
  rw [wp_bind, wp_ofExcept]
  refine ⟨fun handles _ => ?_, fun _ _ => trivial⟩
  have hslot : Prog.Keeps World.slot (do
      firstRead env handles
      launchAndTell args env
      samplingLoop agent args num env.signum 0 env.ticks) :=
    keeps_runRead (fun _ _ _ _ _ => rfl) (fun _ => rfl) h.loop handles num
  rw [wp_bind]
  by_cases hnone : first = false ∧ w.adjustPar = none
  · -- nobody has written, and nobody writes
    have hsettings : Prog.Keeps World.settings (do
        firstRead env handles
        launchAndTell args env
        samplingLoop agent args num env.signum 0 env.ticks) :=
      keeps_runRead (fun _ _ _ _ _ => rfl) (fun _ => rfl) (h.loopSettings hnone.1) handles num
    refine wp_mono_ok (writeConfig_settings hnone.2) fun _ w₁ h₁ => ?_
    subst h₁
    refine wp_mono (wp_and (hslot w₁) (hsettings w₁)) (fun _ w₂ h₂ => ⟨?_, fun _ _ => h₂.2⟩)
      fun _ _ _ => trivial
    rw [hnone.2]
    exact h₂.1
  · refine wp_mono_ok writeConfig_slot fun _ w₁ h₁ => ?_
    exact wp_mono (hslot w₁)
      (fun _ _ h₂ => ⟨h₂.trans h₁, fun hs hp => absurd ⟨hs, hp⟩ hnone⟩) fun _ _ _ => trivial

/-- The settings when the control configuration is written. -/
def beforeConfig (first : Bool) (change : Effect → Settings → Settings) (w₀ : World α) :
    Settings :=
  if first then change w₀.effect w₀.settings else w₀.settings

/-- What a run has saved, and whether it has written, when its clean-up begins. -/
structure Saved (args : Args) (first : Bool) (change : Effect → Settings → Settings)
    (w₀ w : World α) : Prop where
  slot : w.slot = if configured args w₀.adjustPar then
      (some (beforeConfig first change w₀), (w₀.saves ++ if first then [w₀.settings] else []) ++
        [beforeConfig first change w₀])
    else if first then (some w₀.settings, w₀.saves ++ [w₀.settings]) else w₀.slot
  settings : first = false → configured args w₀.adjustPar = false → w.settings = w₀.settings

theorem readConfig_controls :
    wp (readConfig args env)
      (fun _ w => (w.effect, w.settings, w.slot, w.agent) =
          (w₀.effect, w₀.settings, w₀.slot, w₀.agent) ∧
        w.adjustPar.isSome = configured args w₀.adjustPar)
      (fun _ _ => True) w₀ := by
  unfold readConfig configured
  rw [wp_ite]
  refine ⟨fun hc => ?_, fun hc => ⟨rfl, ?_⟩⟩
  · rw [wp_bind, wp_ofExcept]
    exact ⟨fun par _ => ⟨rfl, by rw [hc]; rfl⟩, fun _ _ => trivial⟩
  · rw [Bool.not_eq_true _ |>.mp hc, Bool.false_or]

section

variable (h : Behaves agent a first change)
include h

theorem runBody_saved (ha : w₀.agent = a) :
    wp (runBody agent args env) (fun _ w => Saved args first change w₀ w) (fun _ _ => True) w₀ := by
  unfold runBody
  rw [wp_bind]
  refine wp_mono_ok readConfig_controls fun _ w₁ h₁ => ?_
  obtain ⟨h₁, hpar₁⟩ := h₁
  simp only [World.slot, Prod.mk.injEq] at h₁
  obtain ⟨heffect, hsettings, ⟨hsaved, hsaves⟩, hagent⟩ := h₁
  rw [wp_bind]
  refine wp_mono_ok (h.begin env w₁ (hagent.trans ha)) fun _ w₂ h₂ => ?_
  refine wp_mono_ok (runRead_slot h) fun _ w₃ h₃ => ?_
  obtain ⟨hslot₃, hkept₃⟩ := h₃
  cases first with
  | false =>
    simp only [Bool.false_eq_true, if_false, World.controls, Prod.mk.injEq] at h₂
    obtain ⟨-, hsettings₂, hsaved₂, hsaves₂, hpar₂⟩ := h₂
    refine ⟨?_, fun hf hconf => ?_⟩
    · rw [hslot₃, hpar₂, hpar₁, World.slot, hsettings₂, hsettings, hsaves₂, hsaves, hsaved₂, hsaved]
      simp [beforeConfig, World.slot]
    · rw [hkept₃ hf (Option.isNone_iff_eq_none.mp ?_), hsettings₂, hsettings]
      rw [hpar₂, ← Option.not_isSome, hpar₁, hconf]
      rfl
  | true =>
    simp only [if_true, World.controls, Prod.mk.injEq] at h₂
    obtain ⟨-, hsettings₂, hsaved₂, hsaves₂, hpar₂⟩ := h₂
    refine ⟨?_, nofun⟩
    rw [hslot₃, hpar₂, hpar₁, World.slot, hsettings₂, hsettings, hsaves₂, hsaves, hsaved₂, heffect]
    simp [beforeConfig, hsettings]

/-- `stop` writes the saved settings back. -/
theorem stop_settings (hrestore : env.restoreFails = none) :
    wp (stop agent args env none)
      (fun _ w' => w'.saves = w.saves ∧ w'.settings = w.saved.getD w.settings)
      (fun _ _ => True) w := by
  have hflush : Prog.Keeps World.controls
      (if args.outStream then attempt env.flushFails else pure () : Py α Unit) :=
    .ite (keeps_attempt _) (.pure ())
  have hreport : Prog.Keeps World.controls
      (if args.doReport then writeReport env.finalReportFails else pure () : Py α Unit) :=
    .ite (keeps_writeReport notSampled_controls _) (.pure ())
  have hkill : Prog.Keeps World.controls (killSubp env none : Py α Unit) :=
    Prog.Keeps.bind .get fun _ => .ite (.pure ()) (.pure ())
  unfold stop
  rw [wp_bind]
  refine wp_mono (hflush w) (fun _ w₁ h₁ => ?_) fun _ _ _ => trivial
  rw [wp_bind]
  refine wp_mono (hreport w₁) (fun _ w₂ h₂ => ?_) fun _ _ _ => trivial
  rw [wp_bind, wp_modify, wp_bind]
  refine wp_mono (h.finish env _) (fun _ w₃ h₃ => ?_) fun _ _ _ => trivial
  have hcontrols : w₃.controls = w.controls := (h₃.trans h₂).trans h₁
  simp only [World.controls, Prod.mk.injEq] at hcontrols
  obtain ⟨-, hsettings, hsaved, hsaves, -⟩ := hcontrols
  -- the error of a restore before the first save is caught
  have hkilled : ∀ w₄ : World α, w₄.saves = w.saves → w₄.settings = w.saved.getD w.settings →
      wp (killSubp env none)
        (fun _ w' => w'.saves = w.saves ∧ w'.settings = w.saved.getD w.settings)
        (fun _ _ => True) w₄ := by
    intro w₄ hs₄ hst₄
    refine wp_mono (hkill w₄) (fun _ w₅ h₅ => ?_) fun _ _ _ => trivial
    simp only [World.controls, Prod.mk.injEq] at h₅
    exact ⟨h₅.2.2.2.1.trans hs₄, h₅.2.1.trans hst₄⟩
  rw [wp_bind, wp_tryCatch, Pio.restoreControl, wp_bind, wp_get, hrestore]
  cases hst : w₃.saved with
  | none =>
    refine hkilled w₃ hsaves ?_
    rw [hsettings, ← hsaved, hst]
    rfl
  | some st =>
    refine hkilled { w₃ with settings := st, restored := true } hsaves ?_
    rw [← hsaved, hst]
    rfl

theorem run_saved (ha : w₀.agent = a)
    (hrestore : env.restoreFails = none) :
    wp (run agent args env)
      (fun _ w => ∃ w₁, Saved args first change w₀ w₁ ∧ w.saves = w₁.saves ∧
        w.settings = w₁.saved.getD w₁.settings)
      (fun _ _ => True) w₀ := by
  unfold run
  rw [wp_bind, wp_ofExcept]
  refine ⟨fun _ _ => ?_, fun _ _ => trivial⟩
  rw [wp_bind, wp_attempt]
  refine ⟨fun _ => ?_, fun _ _ => trivial⟩
  rw [wp_tryFinally]
  refine wp_mono (runBody_saved h ha) (fun _ w₁ h₁ => ?_) fun _ w₁ _ => ?_
  · exact wp_mono_ok (stop_settings h hrestore) fun _ _ h₂ => ⟨w₁, h₁, h₂⟩
  · exact wp_const.mpr trivial

theorem givesBack_of_run (ha : w₀.agent = a)
    (hrestore : env.restoreFails = none) (hrun : run agent args env w₀ = .ok () w) :
    GivesBack w₀ w ↔
      (first = true → configured args w₀.adjustPar = true →
        change w₀.effect w₀.settings = w₀.settings) ∧
      (first = false → configured args w₀.adjustPar = false →
        w₀.saved.getD w₀.settings = w₀.settings) := by
  have hsaved := (run_saved h ha hrestore : wp (run agent args env) _ _ w₀)
  unfold wp at hsaved
  rw [hrun] at hsaved
  obtain ⟨w₁, h₁, hsaves, hsettings⟩ := hsaved
  have hslot := h₁.slot
  cases hconf : configured args w₀.adjustPar with
  | true =>
    -- the control configuration is the last to save
    rw [hconf, if_pos rfl, World.slot, Prod.mk.injEq] at hslot
    rw [hslot.1, Option.getD_some] at hsettings
    rw [hslot.2] at hsaves
    cases first with
    | false =>
      refine ⟨fun _ => ⟨nofun, nofun⟩, fun _ => ⟨hsettings, fun st hst => ?_⟩⟩
      rw [hsaves] at hst
      simpa [beforeConfig] using hst
    | true =>
      refine ⟨fun hg => ⟨fun _ _ => hsettings.symm.trans hg.settings, nofun⟩, fun hc => ?_⟩
      have hchange : beforeConfig true change w₀ = w₀.settings := hc.1 rfl rfl
      refine ⟨hsettings.trans hchange, fun st hst => ?_⟩
      rw [hsaves, hchange] at hst
      simpa using hst
  | false =>
    rw [hconf, if_neg Bool.false_ne_true] at hslot
    cases first with
    | false =>
      rw [if_neg Bool.false_ne_true, World.slot, World.slot, Prod.mk.injEq] at hslot
      rw [hslot.1, h₁.settings rfl hconf] at hsettings
      refine ⟨fun hg => ⟨nofun, fun _ _ => hsettings.symm.trans hg.settings⟩, fun hc => ?_⟩
      refine ⟨hsettings.trans (hc.2 rfl rfl), fun st hst => .inl ?_⟩
      rw [hsaves, hslot.2] at hst
      exact hst
    | true =>
      rw [if_pos rfl, World.slot, Prod.mk.injEq] at hslot
      rw [hslot.1, Option.getD_some] at hsettings
      refine ⟨fun _ => ⟨nofun, nofun⟩, fun _ => ⟨hsettings, fun st hst => ?_⟩⟩
      rw [hsaves, hslot.2] at hst
      simpa using hst

end

end Run

/-! ### The agents of the package -/

/-- The agents of the package, and none. -/
inductive PackageAgent where
  | idle
  | heatmap (ar : Arith) (m : Machine)
  | gpuActivity (ar : Arith) (m : Machine)

namespace PackageAgent

/-- The members of the agent. -/
def Members : PackageAgent → Type
  | idle => Unit
  | heatmap _ _ => Heatmap
  | gpuActivity _ _ => GpuActivity

/-- The agent. -/
def agent : (k : PackageAgent) → Agent k.Members
  | idle => Session.idle
  | heatmap ar m => Heatmap.agent ar m
  | gpuActivity ar m => GpuActivity.agent ar m

/-- The agent saves the controls in `run_begin`. -/
def savesFirst : (k : PackageAgent) → k.Members → Bool
  | idle, _ => false
  | heatmap _ m, a => Heatmap.enables m a
  | gpuActivity _ _, _ => true

/-- What the agent makes of the settings in `run_begin` when it has saved them. -/
def change : PackageAgent → Effect → Settings → Settings
  | heatmap _ m => Heatmap.changed m
  | _ => fun _ st => st

theorem behaves : ∀ (k : PackageAgent) (a : k.Members),
    Behaves k.agent a (k.savesFirst a) k.change
  | idle, _ => behaves_idle
  | heatmap ar m, a => Heatmap.behaves ar m a
  | gpuActivity ar m, a => GpuActivity.behaves ar m a

end PackageAgent

/-- **A session that returns gives back the settings it found, and saves nothing else, exactly when
its agent has not changed them before the control configuration saves, and when somebody saves or
nothing else is saved before the run.** -/
theorem givesBack_iff (k : PackageAgent) (a : k.Members) (args : Args) (env : Env) (effect : Effect)
    (settings : Settings) (saved : Option Settings) (par : Option (List (Control × Double)))
    (w : World k.Members) (hrestore : env.restoreFails = none)
    (hrun : run k.agent args env (World.start effect settings saved par a) = .ok () w) :
    GivesBack (World.start effect settings saved par a) w ↔
      (k.savesFirst a = true → configured args par = true →
        k.change effect settings = settings) ∧
      (k.savesFirst a = false → configured args par = false → saved.getD settings = settings) :=
  givesBack_of_run (k.behaves a) rfl hrestore hrun

/-- A machine with one package, on which everything can be pushed and written. -/
def onePackage : Machine where
  hasSignal _ := true
  hasControl _ := true
  signalDomain _ := .ok domainPackage
  controlDomain _ := .ok domainPackage
  numDomain _ := 1
  pushSignal _ _ _ := .ok 0
  pushControl name domain idx := .ok ⟨name, domain, idx⟩
  readSignal _ := .ok (.num 0)
  saveFails := none
  writeFails _ := none

/-- Floats without rounding; the agent's arithmetic is not about the settings. -/
def exact : Arith where
  add a b := match a, b with
    | .num x, .num y => .num (x + y)
    | _, _ => .nan
  sub a b := match a, b with
    | .num x, .num y => .num (x - y)
    | _, _ => .nan
  mul a b := match a, b with
    | .num x, .num y => .num (x * y)
    | _, _ => .nan
  div a b := match a, b with
    | .num x, .num y => .num (x / y)
    | _, _ => .nan

/-- A session without an agent gives back what its control configuration has changed. -/
theorem givesBack_idle : ∃ w, run idle traced quiet
      (World.start .itself (fun _ => .num 3000000000) none none ()) = .ok () w ∧
    GivesBack (World.start .itself (fun _ => .num 3000000000) none none ()) w := by
  refine ⟨_, rfl, ?_⟩
  exact (givesBack_iff .idle () traced quiet .itself (fun _ => .num 3000000000) none none _ rfl
    rfl).mpr ⟨nofun, nofun⟩

/-- With a control configuration the enabled counters of the heatmap agent are what is saved. -/
theorem heatmap_counters_saved :
    ¬ ∀ (k : PackageAgent) (a : k.Members) (args : Args) (env : Env) (effect : Effect)
      (settings : Settings) (saved : Option Settings) (par : Option (List (Control × Double)))
      (w : World k.Members), env.restoreFails = none →
      run k.agent args env (World.start effect settings saved par a) = .ok () w →
      GivesBack (World.start effect settings saved par a) w := by
  intro h
  have hback := h (.heatmap exact onePackage) Heatmap.init traced quiet .itself (fun _ => .num 0)
    none none (final (run (Heatmap.agent exact onePackage) traced quiet)
      (World.start .itself (fun _ => .num 0) none none Heatmap.init)) rfl (eq_ok_of_returns rfl)
  have hcounter := congrFun hback.settings ⟨"MSR::FIXED_CTR_CTRL:EN0_OS", domainPackage, 0⟩
  revert hcounter
  decide

end Session

end Geopm
