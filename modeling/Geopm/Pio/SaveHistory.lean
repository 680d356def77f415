import Geopm.Lib.LastOf
import Geopm.Lib.Lts
import Geopm.Pio.SaveControl

/-!
# Saves and restores, one after the other

The settings of the sysfs and MSR IOGroups exist in the hardware, in a `m_control_saver` or in the
saved fields of the registers, and in files.  A process saves and restores in any order, with
writes by itself and by others in between.

* `Group.writeControl` : the write of a control, which for the MSR IOGroup sets an enable bit too;
* `Group.restore` : the passes of `SaveControlImp::restore` with these writes;
* `Group.call` : the operations of a process;
* `restores_iff` : a restore of some settings leaves others in force, whatever its attempts do,
  just when what it writes agrees with them;
* `Group.DoesAsSaved`, `Group.Fresh` : an operation does what the last save or the file asks for,
  and the copies of the settings are such that it will;
* `along_doesAsSaved_iff` : over a whole run the one is the other;
* `first_save_stays` : a second save that records the settings of the first one.
-/

namespace Geopm.Pio.SaveHistory

open Prog
open SaveControl (ofText settingsOf ofSettings)
open List hiding get modify set

/-! ### The IOGroups -/

/-- The IOGroups that save through `SaveControl`. -/
inductive Kind where
  | sysfs
  | msr
deriving DecidableEq

/-- An IOGroup with its controls, some of them under further names. -/
structure Group where
  kind : Kind
  name : String
  controlNames : List String
  controlDomainType : String → ℤ
  aliases : List (String × String)
  nodup : controlNames.Nodup
  /-- The controls under the name of the IOGroup stand for themselves. -/
  own : ∀ p ∈ aliases, (name ++ "::").toList.isPrefixOf p.1.toList = false

namespace Group

variable (g : Group)

/-- The IOGroup as `SaveControl` sees it: the sysfs one keeps a `m_control_saver`. -/
def saving : SavingGroup where
  name := g.name
  controlNames := g.controlNames
  controlDomainType := g.controlDomainType
  keeps := match g.kind with
    | .sysfs => .snapshot
    | .msr => .file
  nodup := g.nodup

variable (numDomain : ℤ → ℕ)

/-- The checks of the name, of the domain and of its index. -/
def accepts (t : Request) : Bool :=
  decide (t.name ∈ g.controlNames) && t.domainType == g.controlDomainType t.name &&
    decide (0 ≤ t.domainIdx ∧ t.domainIdx < numDomain t.domainType)

/-- The control that a request stands for. -/
def native (t : Request) : Request :=
  ⟨(g.aliases.lookup t.name).getD t.name, t.domainType, t.domainIdx⟩

/-- The enable bit that `MSRIOGroup::write_control` sets before a power limit. -/
def limitEnable (controlName : String) : Option String :=
  match g.kind with
  | .sysfs => none
  | .msr =>
    if controlName = "CPU_POWER_LIMIT_CONTROL" ∨
        controlName = "MSR::PKG_POWER_LIMIT:PL1_POWER_LIMIT" then
      some "MSR::PKG_POWER_LIMIT:PL1_LIMIT_ENABLE"
    else if controlName = "BOARD_POWER_LIMIT_CONTROL" ∨
        controlName = "MSR::PLATFORM_POWER_LIMIT:PL1_POWER_LIMIT" then
      some "MSR::PLATFORM_POWER_LIMIT:PL1_LIMIT_ENABLE"
    else none

def enableVal (setting : Double) : Double := if setting.eq (.num 0) then .num 0 else .num 1

/-- What the writes to the native controls do. -/
abbrev Outcome := Request → WriteOutcome

/-- The write of a native control, and whether it returns. -/
def writeNative (outcome : Outcome) (t : Request) (x : Double) (w : Controls) : Bool × Controls :=
  (decide (outcome t = .writes), w.set g.name t ((outcome t).after (w.value g.name t) x))

/-- `write_control`, and whether it returns. -/
def writeControl (outcome : Outcome) (t : Request) (setting : Double) (w : Controls) :
    Bool × Controls :=
  if !g.accepts numDomain t then (false, w)
  else match g.limitEnable t.name with
    | none => g.writeNative outcome (g.native t) setting w
    | some enable =>
      -- the nested `write_control`, whose own name is none of the power limits
      let te : Request := ⟨enable, t.domainType, t.domainIdx⟩
      if !g.accepts numDomain te then (false, w)
      else
        let r := g.writeNative outcome (g.native te) (enableVal setting) w
        if r.1 then g.writeNative outcome (g.native t) setting r.2 else r

/-! ### Restoring -/

/-- What the writes of a restore do, by the attempt and the number of the setting. -/
abbrev Outcomes := ℕ → ℕ → Outcome

/-- One pass over the settings that have not been restored yet. -/
def restorePass (attempt : ℕ) : (ℕ → Outcome) → List (Setting × Bool) → Finset String → Controls →
    Restoring
  | _, [], unwritten, w => ⟨[], unwritten, w⟩
  | outcomes, (ss, isRestored) :: rest, unwritten, w =>
    let next := fun i => outcomes (i + 1)
    if isRestored || !ss.setting.isFinite then
      let r := restorePass attempt next rest unwritten w
      ⟨(ss, true) :: r.isRestored, r.unwrittenControls, r.controls⟩
    else
      let written := g.writeControl numDomain (outcomes 0) ss.request ss.setting w
      let unwritten :=
        if !written.1 && attempt == maxRestoreRetries then insert ss.name unwritten else unwritten
      let r := restorePass attempt next rest unwritten written.2
      ⟨(ss, written.1) :: r.isRestored, r.unwrittenControls, r.controls⟩

/-- The state of `SaveControlImp::restore` after its passes. -/
def restoring (outcomes : Outcomes) (settings : List Setting) (w : Controls) : Restoring :=
  let first : Restoring := ⟨settings.map (·, false), ∅, w⟩
  (List.range (maxRestoreRetries + 1)).foldl (fun r attempt => g.restorePass numDomain attempt
    (outcomes attempt) r.isRestored r.unwrittenControls r.controls) first

/-- `SaveControlImp::restore`. -/
def restore (outcomes : Outcomes) (saver : SaveControl) (w : Controls) :
    Option Exception × Controls :=
  let r := g.restoring numDomain outcomes saver.settings w
  (restoreError r.unwrittenControls, r.controls)

end Group

/-! ### The operations of a process -/

/-- The copies of the settings: those of `Saved`, the `m_saved_msr_value` of the controls and, for
the statements, the settings at the most recent save. -/
structure State where
  saved : Saved
  savedValue : Request → Double := fun _ => .num 0
  recent : Option (List Setting) := none

/-- The calls of a process, and the writes of others. -/
inductive Op where
  | saveControl
  | saveControlAt (path : String)
  | restoreControl
  | restoreControlAt (path : String)
  | writeControl (t : Request) (setting : Double)
  | elsewhere (controls : Controls) (files : String → Option String)

/-- What the system does in a call: the answers to reads and opened files, what the writes do, how
many controls `MSRIOGroup::save_control` has saved when a read of the batch fails, what a failing
`write_batch` leaves, and what a failing write or batch raises. -/
structure Env where
  answers : Answers := {}
  outcomes : Group.Outcomes := fun _ _ _ => .writes
  readFails : Option ℕ := none
  writeFails : Option (Request → Double) := none
  error : Exception := ⟨"", [], .runtime⟩

namespace Group

variable (g : Group) (json11 : Json11) (numDomain : ℤ → ℕ) (env : Env)

/-- A program on the part of the state that is shared with `SaveControl`. -/
def onSaved (m : EStateM Exception Saved Unit) : EStateM Exception State Unit :=
  zoom State.saved (fun saved s => ⟨saved, s.savedValue, s.recent⟩) m

/-- The settings of the native controls. -/
def settings (s : State) : List Setting := g.saving.settings numDomain s.saved.controls

/-- The settings at a save that has returned. -/
def remember : EStateM Exception State Unit :=
  modify fun s => ⟨s.saved, s.savedValue, some (g.settings numDomain s)⟩

/-- `SaveControlImp::restore`, with the error that it raises. -/
def writeBack (saver : SaveControl) : EStateM Exception Saved Unit := do
  let s ← get
  let r := g.restore numDomain env.outcomes saver s.controls
  set (⟨r.2, s.controlSaver, s.files⟩ : Saved)
  match r.1 with
  | some e => throw e
  | none => pure ()

/-- The native controls that stand behind the first `n` names. -/
def saves (n : ℕ) (t : Request) : Bool :=
  decide (t ∈ g.saving.requests numDomain) &&
    decide (t.name ∈ (g.controlNames.take n).map fun name => (g.native ⟨name, 0, 0⟩).name)

/-- `save_control(void)`. -/
def saveControl : EStateM Exception State Unit := do
  match g.kind with
  | .sysfs => onSaved do
    let s ← get
    if g.controlNames ≠ [] ∧ s.controlSaver g.name = none then
      let saver ← ret (g.saving.saver json11 numDomain env.answers s.controls)
      set (g.saving.keep saver s)
  | .msr =>
    let s ← get
    let n := env.readFails.getD g.controlNames.length
    set (⟨s.saved, fun t => if g.saves numDomain n t then s.saved.controls.value g.name t
      else s.savedValue t, s.recent⟩ : State)
    if env.readFails.isSome then throw env.error
  g.remember numDomain

/-- `save_control(save_path)`. -/
def saveControlAt (path : String) : EStateM Exception State Unit := do
  onSaved (g.saving.saveControl json11 numDomain env.answers path)
  g.remember numDomain

/-- `restore_control(void)`. -/
def restoreControl : EStateM Exception State Unit := do
  match g.kind with
  | .sysfs => onSaved do
    match (← get).controlSaver g.name with
    | some saver => g.writeBack numDomain env saver
    | none => pure ()
  | .msr =>
    let s ← get
    let written := env.writeFails.getD s.savedValue
    let value := fun n t => if n = g.name ∧ t ∈ g.saving.requests numDomain then written t
      else s.saved.controls.value n t
    set (⟨⟨⟨value, s.saved.controls.attempts⟩, s.saved.controlSaver, s.saved.files⟩, s.savedValue,
      s.recent⟩ : State)
    if env.writeFails.isSome then throw env.error

/-- `restore_control(save_path)`. -/
def restoreControlAt (path : String) : EStateM Exception State Unit := onSaved do
  match g.kind with
  | .sysfs =>
    match (← get).controlSaver g.name with
    | some saver => g.writeBack numDomain env saver
    | none =>
      if g.controlNames = [] then pure () else do
        let text ← readFile path
        let saver ← ret (ofText json11 text)
        modify (g.saving.keep saver)
        g.writeBack numDomain env saver
  | .msr =>
    let text ← readFile path
    let saver ← ret (ofText json11 text)
    g.writeBack numDomain env saver

/-- `write_control`, as a call. -/
def write (t : Request) (setting : Double) : EStateM Exception Saved Unit := do
  let s ← get
  let r := g.writeControl numDomain (env.outcomes 0 0) t setting s.controls
  set (⟨r.2, s.controlSaver, s.files⟩ : Saved)
  if r.1 then pure () else throw env.error

/-- One operation. -/
def call : Op → EStateM Exception State Unit
  | .saveControl => g.saveControl json11 numDomain env
  | .saveControlAt path => g.saveControlAt json11 numDomain env path
  | .restoreControl => g.restoreControl numDomain env
  | .restoreControlAt path => g.restoreControlAt json11 numDomain env path
  | .writeControl t setting => onSaved (g.write numDomain env t setting)
  | .elsewhere controls files => modify fun s =>
      ⟨⟨controls, s.saved.controlSaver, files⟩, s.savedValue, s.recent⟩

end Group

/-! ### What a write does -/

namespace Group

variable (g : Group) (numDomain : ℤ → ℕ)

/-- The native controls that a write sets, if the checks pass. -/
def effects (ss : Setting) : Option (List (Request × Double)) :=
  let t := ss.request
  if !g.accepts numDomain t then none
  else match g.limitEnable t.name with
    | none => some [(g.native t, ss.setting)]
    | some enable =>
      let te : Request := ⟨enable, t.domainType, t.domainIdx⟩
      if !g.accepts numDomain te then none
      else some [(g.native te, enableVal ss.setting), (g.native t, ss.setting)]

/-- What a write leaves in a control. -/
def leaves (r : Request) (ss : Setting) : Option Double :=
  lastOf (fun e => if e.1 = r then some e.2 else none) ((g.effects numDomain ss).getD [])

/-- Whether a write returns. -/
def isWritten (outcome : Outcome) (ss : Setting) : Bool :=
  (g.effects numDomain ss).any fun es => es.all fun e => decide (outcome e.1 = .writes)

/-- The writes of native controls, up to the first one that raises. -/
def writeEffects (outcome : Outcome) : List (Request × Double) → Controls → Bool × Controls
  | [], w => (true, w)
  | e :: es, w =>
    let r := g.writeNative outcome e.1 e.2 w
    if r.1 then writeEffects outcome es r.2 else r

variable {g numDomain} {outcome : Outcome} {r : Request}

theorem writeEffects_singleton (e : Request × Double) (w : Controls) :
    g.writeEffects outcome [e] w = g.writeNative outcome e.1 e.2 w := by
  unfold writeEffects writeEffects
  by_cases h : outcome e.1 = .writes <;> simp [writeNative, h]

theorem writeControl_eq (ss : Setting) (w : Controls) :
    g.writeControl numDomain outcome ss.request ss.setting w =
      match g.effects numDomain ss with
      | none => (false, w)
      | some es => g.writeEffects outcome es w := by
  unfold writeControl effects
  dsimp only
  by_cases h : g.accepts numDomain ss.request = true
  · cases g.limitEnable ss.request.name with
    | none => simp [h, writeEffects_singleton]
    | some enable =>
      by_cases he : g.accepts numDomain
          ⟨enable, ss.request.domainType, ss.request.domainIdx⟩ = true
      · have hcons : ∀ e es, g.writeEffects outcome (e :: es) w =
            if (g.writeNative outcome e.1 e.2 w).1 = true then
              g.writeEffects outcome es (g.writeNative outcome e.1 e.2 w).2
            else g.writeNative outcome e.1 e.2 w := fun _ _ => rfl
        simp [h, he, hcons, writeEffects_singleton]
      · simp [h, he]
  · simp [h]

theorem writeEffects_fst (es : List (Request × Double)) (w : Controls) :
    (g.writeEffects outcome es w).1 = es.all fun e => decide (outcome e.1 = .writes) := by
  induction es generalizing w with
  | nil => rfl
  | cons e es ih =>
    unfold writeEffects
    by_cases h : outcome e.1 = .writes <;> simp [writeNative, h, ih]

variable {w : Controls}

/-- A native control that none of the writes is for stays as it is. -/
theorem writeEffects_value_other {es : List (Request × Double)}
    (h : ∀ e ∈ es, e.1 ≠ r) :
    (g.writeEffects outcome es w).2.value g.name r = w.value g.name r := by
  induction es generalizing w with
  | nil => rfl
  | cons e es ih =>
    have hne : ¬ r = e.1 := fun heq => h e mem_cons_self heq.symm
    have hfirst : (g.writeNative outcome e.1 e.2 w).2.value g.name r = w.value g.name r := by
      simp [writeNative, Controls.set, hne]
    unfold writeEffects
    dsimp only
    split_ifs
    · rw [ih fun e he => h e (mem_cons_of_mem _ he), hfirst]
    · exact hfirst

theorem writeEffects_value {es : List (Request × Double)}
    (h : ∀ e ∈ es, outcome e.1 = .writes) :
    (g.writeEffects outcome es w).2.value g.name r =
      (lastOf (fun e => if e.1 = r then some e.2 else none) es).getD (w.value g.name r) := by
  induction es generalizing w with
  | nil => rfl
  | cons e es ih =>
    have hfirst := h e mem_cons_self
    unfold writeEffects
    rw [← singleton_append, lastOf_append]
    simp only [writeNative, hfirst, decide_true, if_true]
    rw [ih fun e he => h e (mem_cons_of_mem _ he)]
    cases lastOf (fun e => if e.1 = r then some e.2 else none) es with
    | some x => rfl
    | none =>
      by_cases hr : e.1 = r
      · simp [lastOf, Controls.set, WriteOutcome.after, hr]
      · have hr' : ¬ r = e.1 := fun heq => hr heq.symm
        simp [lastOf, Controls.set, hr, hr']

theorem leaves_eq_none {ss : Setting} : g.leaves numDomain r ss = none ↔
    ∀ e ∈ (g.effects numDomain ss).getD [], e.1 ≠ r := by
  unfold leaves
  rw [lastOf_eq_none_iff]
  refine forall₂_congr fun e _ => ?_
  split_ifs with h <;> simp [h]

theorem writeControl_fst (ss : Setting) (w : Controls) :
    (g.writeControl numDomain outcome ss.request ss.setting w).1 =
      g.isWritten numDomain outcome ss := by
  rw [writeControl_eq, isWritten]
  cases g.effects numDomain ss with
  | none => rfl
  | some es => exact writeEffects_fst es w

theorem writeControl_value_other {ss : Setting}
    (h : g.leaves numDomain r ss = none) :
    (g.writeControl numDomain outcome ss.request ss.setting w).2.value g.name r =
      w.value g.name r := by
  rw [leaves_eq_none] at h
  rw [writeControl_eq]
  cases heffects : g.effects numDomain ss with
  | none => rfl
  | some es => exact writeEffects_value_other (by simpa [heffects] using h)

theorem writeControl_value {ss : Setting}
    (h : g.isWritten numDomain outcome ss = true) :
    (g.writeControl numDomain outcome ss.request ss.setting w).2.value g.name r =
      (g.leaves numDomain r ss).getD (w.value g.name r) := by
  rw [writeControl_eq, leaves]
  unfold isWritten at h
  cases heffects : g.effects numDomain ss with
  | none => rfl
  | some es =>
    rw [heffects] at h
    exact writeEffects_value (by simpa using h)

/-! ### The passes -/

section Passes

variable {attempt : ℕ} {outcomes : ℕ → Outcome} {ps : List (Setting × Bool)}
  {unwritten : Finset String} {w : Controls}

theorem restorePass_skip {p : Setting × Bool} (h : (p.2 || !p.1.setting.isFinite) = true) :
    g.restorePass numDomain attempt outcomes (p :: ps) unwritten w =
      let r := g.restorePass numDomain attempt (fun i => outcomes (i + 1)) ps unwritten w
      ⟨(p.1, true) :: r.isRestored, r.unwrittenControls, r.controls⟩ :=
  if_pos h

theorem restorePass_write {p : Setting × Bool} (h : ¬ (p.2 || !p.1.setting.isFinite) = true) :
    g.restorePass numDomain attempt outcomes (p :: ps) unwritten w =
      let isWritten := g.isWritten numDomain (outcomes 0) p.1
      let r := g.restorePass numDomain attempt (fun i => outcomes (i + 1)) ps
        (if !isWritten && attempt == maxRestoreRetries then insert p.1.name unwritten
          else unwritten)
        (g.writeControl numDomain (outcomes 0) p.1.request p.1.setting w).2
      ⟨(p.1, isWritten) :: r.isRestored, r.unwrittenControls, r.controls⟩ := by
  rw [← writeControl_fst p.1 w]
  exact if_neg h

theorem restorePass_getElem? (i : ℕ) :
    (g.restorePass numDomain attempt outcomes ps unwritten w).isRestored[i]? = ps[i]?.map fun p =>
      (p.1, p.2 || !p.1.setting.isFinite || g.isWritten numDomain (outcomes i) p.1) := by
  induction ps generalizing outcomes unwritten w i with
  | nil => rfl
  | cons p ps ih =>
    by_cases h : (p.2 || !p.1.setting.isFinite) = true
    · rw [restorePass_skip h]
      cases i with
      | zero => simp [h]
      | succ i => exact ih i
    · rw [restorePass_write h]
      cases i with
      | zero => simp [h]
      | succ i => exact ih i

theorem mem_restorePass_unwritten {name : String} :
    name ∈ (g.restorePass numDomain attempt outcomes ps unwritten w).unwrittenControls ↔
      name ∈ unwritten ∨ attempt = maxRestoreRetries ∧
        ∃ p ∈ (g.restorePass numDomain attempt outcomes ps unwritten w).isRestored,
          p.2 = false ∧ p.1.name = name := by
  induction ps generalizing outcomes unwritten w with
  | nil => simp [restorePass]
  | cons p ps ih =>
    by_cases h : (p.2 || !p.1.setting.isFinite) = true
    · rw [restorePass_skip h]
      simp [ih]
    · rw [restorePass_write h]
      dsimp only
      rw [ih]
      simp only [mem_cons, exists_eq_or_imp]
      cases g.isWritten numDomain (outcomes 0) p.1 with
      | true => simp
      | false =>
        by_cases hmax : attempt = maxRestoreRetries
        · simp only [hmax, Bool.not_false, beq_self_eq_true, Bool.and_self, if_true,
            Finset.mem_insert, true_and, eq_comm (a := name)]
          tauto
        · simp [hmax]

/-- A control is left with a good value, or a setting for it is still to be written: all that is
written to it in the pass is good, and it was good before or is written in the pass. -/
theorem restorePass_good (Good : Double → Prop)
    (hgood : ∀ p ∈ ps, p.2 = false → p.1.setting.isFinite = true →
      ∀ x, g.leaves numDomain r p.1 = some x → Good x)
    (h : Good (w.value g.name r) ∨ ∃ p ∈ ps, p.2 = false ∧ p.1.setting.isFinite = true ∧
      g.leaves numDomain r p.1 ≠ none) :
    Good ((g.restorePass numDomain attempt outcomes ps unwritten w).controls.value g.name r) ∨
      ∃ p ∈ (g.restorePass numDomain attempt outcomes ps unwritten w).isRestored, p.2 = false ∧
        p.1.setting.isFinite = true ∧ g.leaves numDomain r p.1 ≠ none := by
  induction ps generalizing outcomes unwritten w with
  | nil => simpa [restorePass] using h
  | cons p ps ih =>
    have hrest := fun p hp => hgood p (mem_cons_of_mem _ hp)
    have hcons : ∀ {p : Setting × Bool} {flag : Bool} {l : List (Setting × Bool)},
        (∃ q ∈ l, q.2 = false ∧ q.1.setting.isFinite = true ∧ g.leaves numDomain r q.1 ≠ none) →
        ∃ q ∈ (p.1, flag) :: l, q.2 = false ∧ q.1.setting.isFinite = true ∧
          g.leaves numDomain r q.1 ≠ none :=
      fun ⟨q, hq, h⟩ => ⟨q, mem_cons_of_mem _ hq, h⟩
    simp only [mem_cons, exists_eq_or_imp] at h
    by_cases hskip : (p.2 || !p.1.setting.isFinite) = true
    · rw [restorePass_skip hskip]
      have hpending : ¬ (p.2 = false ∧ p.1.setting.isFinite = true ∧
          g.leaves numDomain r p.1 ≠ none) := fun hp => by simp [hp.1, hp.2.1] at hskip
      exact (ih hrest (h.imp_right fun h => h.resolve_left hpending)).imp_right hcons
    · rw [restorePass_write hskip]
      simp only [Bool.or_eq_true, Bool.not_eq_true', not_or, Bool.not_eq_true,
        Bool.not_eq_false] at hskip
      dsimp only
      cases hleaves : g.leaves numDomain r p.1 with
      | none =>
        -- the write is for other controls
        refine (ih hrest ?_).imp_right hcons
        rw [writeControl_value_other hleaves]
        exact h.imp_right fun h => h.resolve_left fun hp => hp.2.2 hleaves
      | some x =>
        cases hwritten : g.isWritten numDomain (outcomes 0) p.1 with
        | true =>
          refine (ih hrest (.inl ?_)).imp_right hcons
          rw [writeControl_value hwritten, hleaves]
          exact hgood p mem_cons_self hskip.1 hskip.2 x hleaves
        | false =>
          -- it raises, whatever it has left, and is to be written again
          exact .inr ⟨(p.1, false), mem_cons_self, rfl, hskip.2, by simp [hleaves]⟩

end Passes

/-! ### What a restore does -/

section Restore

variable {outcomes : Outcomes} {settings : List Setting} {w : Controls}

theorem restoring_eq : g.restoring numDomain outcomes settings w =
    let first := g.restorePass numDomain 0 (outcomes 0) (settings.map (·, false)) ∅ w
    g.restorePass numDomain 1 (outcomes 1) first.isRestored first.unwrittenControls
      first.controls := rfl

theorem restoring_getElem? (i : ℕ) :
    (g.restoring numDomain outcomes settings w).isRestored[i]? = settings[i]?.map fun ss =>
      (ss, !ss.setting.isFinite || g.isWritten numDomain (outcomes 0 i) ss ||
        g.isWritten numDomain (outcomes 1 i) ss) := by
  rw [restoring_eq]
  dsimp only
  rw [restorePass_getElem?, restorePass_getElem?]
  cases hi : settings[i]? with
  | none => simp [hi]
  | some ss =>
    simp only [getElem?_map, hi, Option.map_some, Bool.false_or, Option.some.injEq,
      Prod.mk.injEq, true_and]
    cases ss.setting.isFinite <;> simp

theorem mem_restoring_unwritten {name : String} :
    name ∈ (g.restoring numDomain outcomes settings w).unwrittenControls ↔
      ∃ p ∈ (g.restoring numDomain outcomes settings w).isRestored,
        p.2 = false ∧ p.1.name = name := by
  rw [restoring_eq]
  dsimp only
  rw [mem_restorePass_unwritten, mem_restorePass_unwritten]
  simp [maxRestoreRetries]

variable {saver : SaveControl}

theorem restore_fst_eq_none :
    (g.restore numDomain outcomes saver w).1 = none ↔
      ∀ p ∈ (g.restoring numDomain outcomes saver.settings w).isRestored, p.2 = true := by
  unfold restore restoreError
  dsimp only
  rw [ite_eq_left_iff, Finset.eq_empty_iff_forall_notMem]
  simp only [mem_restoring_unwritten, reduceCtorEq, imp_false, not_not]
  constructor
  · intro h p hp
    cases hp2 : p.2 with
    | true => rfl
    | false => exact absurd ⟨p, hp, hp2, rfl⟩ (h p.1.name)
  · rintro h name ⟨p, hp, hp2, -⟩
    rw [h p hp] at hp2
    cases hp2

theorem restore_returns
    (h : ∀ i ss, saver.settings[i]? = some ss → ss.setting.isFinite = true →
      g.isWritten numDomain (outcomes 0 i) ss = true ∨
        g.isWritten numDomain (outcomes 1 i) ss = true) :
    (g.restore numDomain outcomes saver w).1 = none := by
  rw [restore_fst_eq_none]
  intro p hp
  obtain ⟨i, hi⟩ := mem_iff_getElem?.mp hp
  rw [restoring_getElem?] at hi
  obtain ⟨ss, hss, rfl⟩ := Option.map_eq_some_iff.mp hi
  cases hfinite : ss.setting.isFinite with
  | false => simp
  | true => simpa using h i ss hss hfinite

theorem restore_good (Good : Double → Prop)
    (hgood : ∀ x ∈ finiteOf saver.settings, ∀ e, g.leaves numDomain r x = some e → Good e)
    (h : (∀ x ∈ finiteOf saver.settings, g.leaves numDomain r x = none) → Good (w.value g.name r))
    (hnone : (g.restore numDomain outcomes saver w).1 = none) :
    Good ((g.restore numDomain outcomes saver w).2.value g.name r) := by
  have hfinite : ∀ {ss : Setting}, ss ∈ saver.settings → ss.setting.isFinite = true →
      ss ∈ finiteOf saver.settings := fun hss h => mem_filter.mpr ⟨hss, h⟩
  let first := g.restorePass numDomain 0 (outcomes 0) (saver.settings.map (·, false)) ∅ w
  have hfirst : Good (first.controls.value g.name r) ∨ ∃ p ∈ first.isRestored, p.2 = false ∧
      p.1.setting.isFinite = true ∧ g.leaves numDomain r p.1 ≠ none := by
    refine restorePass_good Good ?_ ?_
    · rintro p hp - hpfinite x hx
      obtain ⟨ss, hss, rfl⟩ := mem_map.mp hp
      exact hgood ss (hfinite hss hpfinite) x hx
    · by_cases hall : ∀ x ∈ finiteOf saver.settings, g.leaves numDomain r x = none
      · exact .inl (h hall)
      · push Not at hall
        obtain ⟨ss, hss, hne⟩ := hall
        obtain ⟨hmem, hfin⟩ := mem_filter.mp hss
        exact .inr ⟨(ss, false), mem_map_of_mem hmem, rfl, hfin, hne⟩
  rw [restore_fst_eq_none, restoring_eq] at hnone
  refine (restorePass_good Good (fun p hp _ hpfinite x hx => ?_) hfirst).resolve_right ?_
  · obtain ⟨i, hi⟩ := mem_iff_getElem?.mp hp
    rw [restorePass_getElem?, getElem?_map, Option.map_map] at hi
    obtain ⟨ss, hss, rfl⟩ := Option.map_eq_some_iff.mp hi
    exact hgood ss (hfinite (mem_of_getElem? hss) hpfinite) x hx
  · rintro ⟨p, hp, hp2, -⟩
    rw [hnone p hp] at hp2
    cases hp2

/-- The writes all return, but for the first attempt of one setting. -/
def lateFor (i : ℕ) : Outcomes := fun attempt j _ =>
  if attempt = 0 ∧ j = i then .raises none else .writes

/-- A setting that is written in the second pass alone is the last to be written. -/
theorem restore_late {i : ℕ} {ss : Setting} {e : Double}
    (hi : saver.settings[i]? = some ss) (hfinite : ss.setting.isFinite = true)
    (haccepted : ∀ x ∈ finiteOf saver.settings, g.effects numDomain x ≠ none)
    (he : g.leaves numDomain r ss = some e) :
    (g.restore numDomain (lateFor i) saver w).1 = none ∧
      (g.restore numDomain (lateFor i) saver w).2.value g.name r = e := by
  have hwritten : ∀ attempt j x, x ∈ saver.settings → x.setting.isFinite = true →
      ¬ (attempt = 0 ∧ j = i) → g.isWritten numDomain (lateFor i attempt j) x = true := by
    intro attempt j x hx hxfinite hlate
    obtain ⟨es, hes⟩ := Option.ne_none_iff_exists'.mp
      (haccepted x (mem_filter.mpr ⟨hx, hxfinite⟩))
    simp [isWritten, hes, lateFor, hlate]
  have hnone : (g.restore numDomain (lateFor i) saver w).1 = none :=
    restore_returns fun j x hj hx =>
      .inr (hwritten 1 j x (mem_of_getElem? hj) hx fun h => one_ne_zero h.1)
  -- its first attempt does not return
  have hlate : g.isWritten numDomain (lateFor i 0 i) ss = false := by
    cases heffects : g.effects numDomain ss with
    | none => simp [isWritten, heffects]
    | some es =>
      cases es with
      | nil => simp [leaves, heffects, lastOf] at he
      | cons e es => simp [isWritten, heffects, lateFor]
  refine ⟨hnone, ?_⟩
  let first := g.restorePass numDomain 0 (lateFor i 0) (saver.settings.map (·, false)) ∅ w
  rw [restore_fst_eq_none, restoring_eq] at hnone
  refine (restorePass_good (· = e) (fun p hp hp2 hpfinite x hx => ?_) (.inr ?_) :
    _ ∨ ∃ p ∈ (g.restorePass numDomain 1 (lateFor i 1) first.isRestored first.unwrittenControls
      first.controls).isRestored, _).resolve_right ?_
  · obtain ⟨j, hj⟩ := mem_iff_getElem?.mp hp
    rw [restorePass_getElem?, getElem?_map, Option.map_map] at hj
    obtain ⟨ss', hss', rfl⟩ := Option.map_eq_some_iff.mp hj
    dsimp only [Function.comp] at hp2 hpfinite hx
    have hji : j = i := by
      by_contra hne
      rw [hwritten 0 j ss' (mem_of_getElem? hss') hpfinite fun h => hne h.2] at hp2
      simp at hp2
    subst hji
    rw [hi] at hss'
    obtain rfl := Option.some.inj hss'
    exact Option.some.inj (hx.symm.trans he)
  · refine ⟨(ss, false), mem_of_getElem? (i := i) ?_, rfl, hfinite, by simp [he]⟩
    rw [restorePass_getElem?, getElem?_map, hi]
    simp [hfinite, hlate]
  · rintro ⟨p, hp, hp2, -⟩
    rw [hnone p hp] at hp2
    cases hp2

/-- The settings are in force. -/
def InForce (g : Group) (settings : List Setting) (w : Controls) : Prop :=
  ∀ y ∈ finiteOf settings, (w.value g.name (g.native y.request)).eq y.setting = true

/-- What the writes of some settings leave in the controls agrees with other settings, and the
controls that they leave alone have these already.  A setting that cannot be written makes the
restore raise. -/
def Agrees (g : Group) (numDomain : ℤ → ℕ) (used target : List Setting) (w : Controls) : Prop :=
  (∀ x ∈ finiteOf used, g.effects numDomain x ≠ none) → ∀ y ∈ finiteOf target,
    (∀ x ∈ finiteOf used, ∀ e, g.leaves numDomain (g.native y.request) x = some e →
      e.eq y.setting = true) ∧
    ((∀ x ∈ finiteOf used, g.leaves numDomain (g.native y.request) x = none) →
      (w.value g.name (g.native y.request)).eq y.setting = true)

/-- A restore of some settings that returns leaves others in force, whatever its attempts do, just
when what it writes agrees with them. -/
theorem restores_iff {target : List Setting} :
    (∀ outcomes, (g.restore numDomain outcomes saver w).1 = none →
      g.InForce target (g.restore numDomain outcomes saver w).2) ↔
      g.Agrees numDomain saver.settings target w := by
  constructor
  · intro h haccepted y hy
    refine ⟨fun x hx e he => ?_, fun hother => ?_⟩
    · obtain ⟨hmem, hfinite⟩ := mem_filter.mp hx
      obtain ⟨i, hi⟩ := mem_iff_getElem?.mp hmem
      obtain ⟨hnone, hvalue⟩ := restore_late (w := w) hi hfinite haccepted he
      exact hvalue ▸ h (lateFor i) hnone y hy
    · -- all writes return, and none of them is for the control
      have hnone : (g.restore numDomain (fun _ _ _ => .writes) saver w).1 = none := by
        refine restore_returns fun i ss hi hfinite => .inl ?_
        obtain ⟨es, hes⟩ := Option.ne_none_iff_exists'.mp
          (haccepted ss (mem_filter.mpr ⟨mem_of_getElem? hi, hfinite⟩))
        simp [isWritten, hes]
      have hsame : (g.restore numDomain (fun _ _ _ => .writes) saver w).2.value g.name
          (g.native y.request) = w.value g.name (g.native y.request) :=
        restore_good (· = w.value g.name (g.native y.request))
          (fun x hx e he => by rw [hother x hx] at he; cases he) (fun _ => rfl) hnone
      exact hsame ▸ h _ hnone y hy
  · intro h outcomes hnone y hy
    have haccepted : ∀ x ∈ finiteOf saver.settings, g.effects numDomain x ≠ none := by
      intro x hx heffects
      obtain ⟨hmem, hfinite⟩ := mem_filter.mp hx
      obtain ⟨i, hi⟩ := mem_iff_getElem?.mp hmem
      rw [restore_fst_eq_none] at hnone
      have hp := hnone (x, false) (mem_of_getElem? (i := i) (by
        rw [restoring_getElem?, hi]
        simp [isWritten, heffects, hfinite]))
      cases hp
    obtain ⟨hwritten, hother⟩ := h haccepted y hy
    exact restore_good (fun v => v.eq y.setting = true) hwritten hother hnone

end Restore

/-! ### What the operations are to do -/

section Claims

variable (g : Group) (json11 : Json11) (numDomain : ℤ → ℕ)

/-- The settings in a file. -/
def fileSettings (s : State) (path : String) : Option (List Setting) :=
  (s.saved.files path).bind fun text => (settingsOf json11 text).toOption

/-- The settings that are in the file after a save to the path: the current ones.  Without controls
there is nothing to save. -/
def Recorded (current : List Setting) (path : String) (s : State) : Prop :=
  g.controlNames = [] ∨ ∃ settings, fileSettings json11 s path = some settings ∧
    Agree settings current

/-- What an operation does, whatever the system answers, if it returns: `save_control(path)` records
the current settings, `restore_control()` restores those of the most recent save, and
`restore_control(path)` those in the file. -/
def DoesAsSaved (s : State) : Op → Prop
  | .saveControlAt path => ∀ env s',
      g.call json11 numDomain env (.saveControlAt path) s = .ok () s' →
      g.Recorded json11 (g.settings numDomain s) path s'
  | .restoreControl => ∀ env s', g.call json11 numDomain env .restoreControl s = .ok () s' →
      ∀ settings, s.recent = some settings → g.InForce settings s'.saved.controls
  | .restoreControlAt path => ∀ env s',
      g.call json11 numDomain env (.restoreControlAt path) s = .ok () s' →
      ∀ settings, fileSettings json11 s path = some settings → g.InForce settings s'.saved.controls
  | _ => True

/-- The settings of the `m_control_saver`. -/
def kept (s : State) : List Setting := (s.saved.controlSaver g.name).elim [] (·.settings)

/-- The settings that `restore_control(save_path)` writes: of the file, unless a sysfs IOGroup has
a `m_control_saver` or no controls. -/
def restoredAt (s : State) (path : String) : List Setting :=
  if g.kind = .sysfs ∧ (s.saved.controlSaver g.name ≠ none ∨ g.controlNames = []) then g.kept s
  else (fileSettings json11 s path).getD []

/-- The copy that an operation uses is as recent as the one it stands for: the `m_control_saver` of
a sysfs IOGroup as the hardware, the last save or the file, and the saved fields of the registers
as the last save. -/
def Fresh (s : State) : Op → Prop
  | .saveControlAt _ => g.kind = .sysfs → g.controlNames ≠ [] →
      ∀ saver, s.saved.controlSaver g.name = some saver →
        ∃ settings, settingsOf json11 saver.json = .ok settings ∧
          Agree settings (g.settings numDomain s)
  | .restoreControl => ∀ settings, s.recent = some settings →
      match g.kind with
      | .sysfs => g.Agrees numDomain (g.kept s) settings s.saved.controls
      | .msr => ∀ y ∈ finiteOf settings, (s.savedValue y.request).eq y.setting = true
  | .restoreControlAt path => ∀ settings, fileSettings json11 s path = some settings →
      g.Agrees numDomain (g.restoredAt json11 s path) settings s.saved.controls
  | _ => True

end Claims

/-! ### What the operations do -/

section Calls

variable {json11 : Json11} {s : State} {path : String} {saver : SaveControl}

theorem writeBack_eq {env : Env} {t : Saved} :
    g.writeBack numDomain env saver t =
      let r := g.restore numDomain env.outcomes saver t.controls
      match r.1 with
      | some e => .error e ⟨r.2, t.controlSaver, t.files⟩
      | none => .ok () ⟨r.2, t.controlSaver, t.files⟩ := by
  change (match (g.restore numDomain env.outcomes saver t.controls).1 with
    | some e => (throw e : EStateM Exception Saved Unit)
    | none => pure ()) _ = _
  dsimp only
  cases (g.restore numDomain env.outcomes saver t.controls).1 <;> rfl

variable (P : Controls → Prop)

/-- What holds of the controls after every call that does a restore of the settings. -/
theorem forall_writeBack {m : Env → EStateM Exception State Unit}
    {t : Saved} (ht : t.controls = s.saved.controls)
    (hm : ∀ env, m env s = onSaved (g.writeBack numDomain env saver) ⟨t, s.savedValue, s.recent⟩) :
    (∀ env s', m env s = .ok () s' → P s'.saved.controls) ↔
      ∀ outcomes, (g.restore numDomain outcomes saver s.saved.controls).1 = none →
        P (g.restore numDomain outcomes saver s.saved.controls).2 := by
  have heq : ∀ env, m env s =
      match (g.restore numDomain env.outcomes saver s.saved.controls).1 with
      | some e => .error e ⟨⟨(g.restore numDomain env.outcomes saver s.saved.controls).2,
          t.controlSaver, t.files⟩, s.savedValue, s.recent⟩
      | none => .ok () ⟨⟨(g.restore numDomain env.outcomes saver s.saved.controls).2,
          t.controlSaver, t.files⟩, s.savedValue, s.recent⟩ := by
    intro env
    rw [hm, onSaved, zoom, writeBack_eq]
    dsimp only
    rw [ht]
    cases (g.restore numDomain env.outcomes saver s.saved.controls).1 <;> rfl
  constructor
  · intro h outcomes hnone
    have := heq { outcomes := outcomes }
    rw [hnone] at this
    exact h _ _ this
  · intro h env s' hs'
    rw [heq] at hs'
    cases hnone : (g.restore numDomain env.outcomes saver s.saved.controls).1 with
    | some e => rw [hnone] at hs'; cases hs'
    | none =>
      rw [hnone] at hs'
      cases hs'
      exact h env.outcomes hnone

theorem forall_pure {m : Env → EStateM Exception State Unit}
    (hsaver : saver.settings = [])
    (hm : ∀ env, m env s = .ok () s) :
    (∀ env s', m env s = .ok () s' → P s'.saved.controls) ↔
      ∀ outcomes, (g.restore numDomain outcomes saver s.saved.controls).1 = none →
        P (g.restore numDomain outcomes saver s.saved.controls).2 := by
  have hrestore : ∀ outcomes, g.restore numDomain outcomes saver s.saved.controls =
      (none, s.saved.controls) := by
    intro outcomes
    unfold restore restoring
    rw [hsaver]
    rfl
  simp only [hm, hrestore, EStateM.Result.ok.injEq, true_and, forall_eq', forall_const]
  exact ⟨fun h _ => h {}, fun h _ => h fun _ _ _ => .writes⟩

theorem fileSettings_eq_some {settings : List Setting}
    (h : fileSettings json11 s path = some settings) :
    ∃ text, s.saved.files path = some text ∧ settingsOf json11 text = .ok settings := by
  obtain ⟨text, htext, hsettings⟩ := Option.bind_eq_some_iff.mp h
  refine ⟨text, htext, ?_⟩
  cases hparsed : settingsOf json11 text with
  | error e => rw [hparsed] at hsettings; cases hsettings
  | ok parsed => rw [hparsed] at hsettings; rw [Option.some.inj hsettings]

variable (numDomain) in
/-- A restore from a file does a restore of the settings that the IOGroup takes for it. -/
theorem forall_restoreControlAt {settings : List Setting}
    (hfile : fileSettings json11 s path = some settings) :
    ∃ saver : SaveControl, saver.settings = g.restoredAt json11 s path ∧
      ((∀ env s', g.call json11 numDomain env (.restoreControlAt path) s = .ok () s' →
        P s'.saved.controls) ↔
      ∀ outcomes, (g.restore numDomain outcomes saver s.saved.controls).1 = none →
        P (g.restore numDomain outcomes saver s.saved.controls).2) := by
  obtain ⟨text, htext, hsettings⟩ := fileSettings_eq_some hfile
  have hread : readFile path s.saved = .ok text s.saved := by
    unfold readFile
    rw [bind_of_ok (rfl : (get : EStateM Exception Saved Saved) s.saved = .ok s.saved s.saved), htext]
    rfl
  have hsaver : ofText json11 text = .ok ⟨settings, text⟩ := by
    unfold ofText
    rw [hsettings]
    rfl
  unfold call restoreControlAt restoredAt kept
  cases hkind : g.kind with
  | msr =>
    refine ⟨⟨settings, text⟩, by simp [hfile], forall_writeBack P rfl fun env => ?_⟩
    unfold onSaved zoom
    dsimp only
    rw [bind_of_ok hread, hsaver]
    rfl
  | sysfs =>
    cases hkept : s.saved.controlSaver g.name with
    | some saver =>
      refine ⟨saver, by simp, forall_writeBack P (t := s.saved) rfl fun env => ?_⟩
      unfold onSaved zoom
      dsimp only
      rw [bind_of_ok (rfl : (get : EStateM Exception Saved Saved) s.saved = .ok s.saved s.saved),
        hkept]
    | none =>
      by_cases hnames : g.controlNames = []
      · refine ⟨⟨[], text⟩, by simp [hnames], forall_pure P rfl fun env => ?_⟩
        unfold onSaved zoom
        dsimp only
        rw [bind_of_ok (rfl : (get : EStateM Exception Saved Saved) s.saved = .ok s.saved s.saved),
          hkept]
        dsimp only
        rw [if_pos hnames]
        rfl
      · refine ⟨⟨settings, text⟩, by simp [hnames, hfile], forall_writeBack P
          (t := g.saving.keep ⟨settings, text⟩ s.saved) rfl fun env => ?_⟩
        unfold onSaved zoom
        dsimp only
        rw [bind_of_ok (rfl : (get : EStateM Exception Saved Saved) s.saved = .ok s.saved s.saved),
          hkept]
        dsimp only
        rw [if_neg hnames, bind_of_ok hread, hsaver]
        rfl

variable (json11 numDomain s) in
theorem forall_restoreControl_sysfs (hkind : g.kind = .sysfs) :
    ∃ saver : SaveControl, saver.settings = g.kept s ∧
      ((∀ env s', g.call json11 numDomain env .restoreControl s = .ok () s' →
        P s'.saved.controls) ↔
      ∀ outcomes, (g.restore numDomain outcomes saver s.saved.controls).1 = none →
        P (g.restore numDomain outcomes saver s.saved.controls).2) := by
  unfold call restoreControl kept
  cases hkept : s.saved.controlSaver g.name with
  | some saver =>
    refine ⟨saver, rfl, forall_writeBack P (t := s.saved) rfl fun env => ?_⟩
    unfold onSaved zoom
    rw [hkind]
    dsimp only
    rw [bind_of_ok (rfl : (get : EStateM Exception Saved Saved) s.saved = .ok s.saved s.saved),
      hkept]
  | none =>
    refine ⟨⟨[], ""⟩, rfl, forall_pure P rfl fun env => ?_⟩
    unfold onSaved zoom
    rw [hkind]
    dsimp only
    rw [bind_of_ok (rfl : (get : EStateM Exception Saved Saved) s.saved = .ok s.saved s.saved),
      hkept]
    rfl

variable (json11 numDomain s) in
theorem restoreControl_msr (hkind : g.kind = .msr) (env : Env) :
    wp (g.call json11 numDomain env .restoreControl) (fun _ s' => ∀ t,
      s'.saved.controls.value g.name t =
        if t ∈ g.saving.requests numDomain then s.savedValue t
        else s.saved.controls.value g.name t) (fun _ _ => True) s := by
  unfold call restoreControl
  rw [hkind]
  dsimp only
  rw [wp_bind, wp_get, wp_bind, wp_set]
  cases env.writeFails with
  | some left => exact trivial
  | none => exact fun t => by simp

/-- The settings that `save_control(save_path)` writes. -/
def savedAt (g : Group) (json11 : Json11) (numDomain : ℤ → ℕ) (s : State) : SaveControl :=
  match g.kind, s.saved.controlSaver g.name with
  | .sysfs, some saver => saver
  | _, _ => ofSettings json11 (g.settings numDomain s)

variable (json11 numDomain s path) in
/-- A save to a path writes these settings. -/
theorem saveControlAt_file (env : Env) (hnames : g.controlNames ≠ []) :
    wp (g.call json11 numDomain env (.saveControlAt path)) (fun _ s' =>
      s'.saved.files path = some (g.savedAt json11 numDomain s).json) (fun _ _ => True) s := by
  unfold call saveControlAt
  rw [wp_bind, onSaved, wp_zoom]
  refine wp_mono (Q := fun _ t => t.files path = some (g.savedAt json11 numDomain s).json)
    (E := fun _ _ => True) ?_ (fun _ t ht => ?_) fun _ _ _ => trivial
  swap
  · unfold remember
    rwa [wp_modify]
  unfold SavingGroup.saveControl savedAt
  cases hkind : g.kind with
  | msr =>
    simp only [saving, hkind]
    rw [wp_bind, wp_get, wp_bind]
    exact wp_ret_saver (wp_writeFile (if_pos rfl))
  | sysfs =>
    simp only [saving, hkind]
    rw [if_neg hnames, wp_bind, wp_get]
    cases hkept : s.saved.controlSaver g.name with
    | some saver => exact wp_writeFile (if_pos rfl)
    | none =>
      dsimp only
      rw [wp_bind]
      refine wp_ret_saver ?_
      rw [wp_bind, wp_set]
      exact wp_writeFile (if_pos rfl)

variable (g json11 numDomain s path) in
theorem saveControlAt_returns :
    returns (g.call json11 numDomain {} (.saveControlAt path)) s = true := by
  have hsaver : ∀ w, g.saving.saver json11 numDomain {} w =
      .ok (ofSettings json11 (g.saving.settings numDomain w)) := by
    intro w
    unfold SavingGroup.saver
    have hnone : (g.saving.requests numDomain).findSome?
        ((({} : Answers)).readError g.saving.name) = none := by simp
    rw [hnone]
  have hok : ∃ t, g.saving.saveControl json11 numDomain {} path s.saved = .ok () t := by
    unfold SavingGroup.saveControl
    cases hkeeps : g.saving.keeps with
    | nothing => exact ⟨_, rfl⟩
    | file =>
      dsimp only
      rw [bind_of_ok (rfl : (get : EStateM Exception Saved Saved) s.saved = .ok s.saved s.saved),
        hsaver]
      exact ⟨_, rfl⟩
    | snapshot =>
      dsimp only
      split_ifs
      · exact ⟨_, rfl⟩
      · rw [bind_of_ok (rfl : (get : EStateM Exception Saved Saved) s.saved = .ok s.saved s.saved)]
        cases hkept : s.saved.controlSaver g.saving.name with
        | some saver => exact ⟨_, rfl⟩
        | none =>
          dsimp only
          rw [hsaver]
          exact ⟨_, rfl⟩
  obtain ⟨t, ht⟩ := hok
  have hzoom : onSaved (g.saving.saveControl json11 numDomain {} path) s =
      .ok () ⟨t, s.savedValue, s.recent⟩ := by
    unfold onSaved zoom
    rw [ht]
  have hcall : g.call json11 numDomain {} (.saveControlAt path) s = _ := bind_of_ok hzoom
  unfold returns
  rw [hcall]
  rfl

end Calls

/-! ### Over a run -/

section Runs

variable {json11 : Json11} {s : State} {path : String}

/-- The settings of the last save are those of the native controls. -/
def WellKept (g : Group) (numDomain : ℤ → ℕ) (s : State) : Prop :=
  ∀ settings, s.recent = some settings →
    settings.map Setting.request = g.saving.requests numDomain

theorem map_request_settings (s : State) :
    (g.settings numDomain s).map Setting.request = g.saving.requests numDomain := by
  unfold settings SavingGroup.settings
  rw [map_map]
  exact map_id _

theorem finite_settings_nodup (s : State) :
    ((finiteOf (g.settings numDomain s)).map Setting.request).Nodup := by
  refine List.Nodup.sublist (filter_sublist.map _) ?_
  rw [map_request_settings]
  exact g.saving.requests_nodup

/-- A native control stands for itself. -/
theorem native_of_mem {t : Request} (ht : t ∈ g.saving.requests numDomain) : g.native t = t := by
  unfold SavingGroup.requests at ht
  rw [mem_flatMap] at ht
  obtain ⟨name, hname, ht⟩ := ht
  obtain ⟨i, -, rfl⟩ := mem_map.mp ht
  have hprefix := (mem_filter.mp hname).2
  have hlookup : g.aliases.lookup name = none := by
    rw [lookup_eq_none_iff]
    intro p hp
    have hown := g.own p hp
    by_contra hne
    have heq : name = p.1 := by simpa using hne
    rw [← heq] at hown
    exact Bool.false_ne_true (hown.symm.trans hprefix)
  unfold native
  simp [hlookup]

theorem wp_remember {E : Exception → State → Prop} :
    wp (g.remember numDomain) (fun _ => WellKept g numDomain) E s := by
  unfold remember
  rw [wp_modify]
  intro settings hsettings
  rw [← Option.some.inj hsettings]
  exact map_request_settings s

theorem wp_onSaved (h : WellKept g numDomain s) (m : EStateM Exception Saved Unit) :
    wp (onSaved m) (fun _ => WellKept g numDomain) (fun _ => WellKept g numDomain) s := by
  unfold wp onSaved zoom
  cases m s.saved <;> exact h

theorem WellKept.call (h : WellKept g numDomain s) (l : Op × Env) :
    WellKept g numDomain (final (g.call json11 numDomain l.2 l.1) s) := by
  rw [← wp_final (P := WellKept g numDomain)]
  obtain ⟨op, env⟩ := l
  cases op with
  | saveControl =>
    unfold Group.call saveControl
    dsimp only
    cases g.kind with
    | sysfs =>
      dsimp only
      rw [wp_bind]
      exact wp_mono_ok (wp_onSaved h _) fun _ _ _ => wp_remember
    | msr =>
      dsimp only
      rw [wp_bind, wp_get, wp_bind, wp_set]
      cases env.readFails with
      | none => exact wp_remember
      | some n => exact h
  | saveControlAt path =>
    unfold Group.call saveControlAt
    dsimp only
    rw [wp_bind]
    exact wp_mono_ok (wp_onSaved h _) fun _ _ _ => wp_remember
  | restoreControl =>
    unfold Group.call restoreControl
    dsimp only
    cases g.kind with
    | sysfs => exact wp_onSaved h _
    | msr =>
      dsimp only
      rw [wp_bind, wp_get, wp_bind, wp_set]
      cases env.writeFails <;> exact h
  | restoreControlAt path => exact wp_onSaved h _
  | writeControl t setting => exact wp_onSaved h _
  | elsewhere controls files => exact h

/-- An operation does what the last save or the file asks for just when the copy that it uses is
fresh. -/
theorem doesAsSaved_iff (hkept : WellKept g numDomain s)
    (htrips : json11.RoundTrips (g.settings numDomain s)) (op : Op) :
    g.DoesAsSaved json11 numDomain s op ↔ g.Fresh json11 numDomain s op := by
  cases op with
  | saveControl => exact Iff.rfl
  | writeControl => exact Iff.rfl
  | elsewhere => exact Iff.rfl
  | restoreControlAt path =>
    unfold DoesAsSaved Fresh
    constructor
    · intro h settings hfile
      obtain ⟨saver, hsaver, hiff⟩ := forall_restoreControlAt numDomain (InForce g settings) hfile
      rw [← hsaver, ← restores_iff]
      exact hiff.mp fun env s' hs' => h env s' hs' settings hfile
    · intro h env s' hs' settings hfile
      obtain ⟨saver, hsaver, hiff⟩ := forall_restoreControlAt numDomain (InForce g settings) hfile
      refine hiff.mpr ?_ env s' hs'
      rw [restores_iff, hsaver]
      exact h settings hfile
  | restoreControl =>
    unfold DoesAsSaved Fresh
    cases hkind : g.kind with
    | sysfs =>
      constructor
      · intro h settings hrecent
        obtain ⟨saver, hsaver, hiff⟩ :=
          forall_restoreControl_sysfs numDomain json11 s (InForce g settings) hkind
        rw [← hsaver, ← restores_iff]
        exact hiff.mp fun env s' hs' => h env s' hs' settings hrecent
      · intro h env s' hs' settings hrecent
        obtain ⟨saver, hsaver, hiff⟩ :=
          forall_restoreControl_sysfs numDomain json11 s (InForce g settings) hkind
        refine hiff.mpr ?_ env s' hs'
        rw [restores_iff, hsaver]
        exact h settings hrecent
    | msr =>
      -- the fields are written to the controls that the last save was for
      have hvalue : ∀ settings, s.recent = some settings → ∀ y ∈ finiteOf settings, ∀ env s',
          g.call json11 numDomain env .restoreControl s = .ok () s' →
          s'.saved.controls.value g.name (g.native y.request) = s.savedValue y.request := by
        intro settings hrecent y hy env s' hs'
        have hmem : y.request ∈ g.saving.requests numDomain :=
          hkept settings hrecent ▸ mem_map_of_mem (mem_of_mem_filter hy)
        have hwp := restoreControl_msr numDomain json11 s hkind env
        unfold wp at hwp
        rw [hs'] at hwp
        rw [native_of_mem hmem, hwp, if_pos hmem]
      have hreturns : ∃ s', g.call json11 numDomain {} .restoreControl s = .ok () s' := by
        unfold call restoreControl
        rw [hkind]
        exact ⟨_, rfl⟩
      obtain ⟨s', hs'⟩ := hreturns
      constructor
      · intro h settings hrecent y hy
        rw [← hvalue settings hrecent y hy {} s' hs']
        exact h {} s' hs' settings hrecent y hy
      · intro h env s' hs' settings hrecent y hy
        rw [hvalue settings hrecent y hy env s' hs']
        exact h settings hrecent y hy
  | saveControlAt path =>
    unfold DoesAsSaved Fresh Recorded
    have hfile : ∀ env s', g.controlNames ≠ [] →
        g.call json11 numDomain env (.saveControlAt path) s = .ok () s' →
        s'.saved.files path = some (g.savedAt json11 numDomain s).json := by
      intro env s' hnames hs'
      have hwp := saveControlAt_file numDomain json11 s path env hnames
      unfold wp at hwp
      rwa [hs'] at hwp
    constructor
    · intro h hkind hnames saver hsaver
      have hs' := eq_ok_of_returns (saveControlAt_returns g numDomain json11 s path)
      obtain ⟨settings, hsettings, hagree⟩ := (h {} _ hs').resolve_left hnames
      obtain ⟨text, htext, hparsed⟩ := fileSettings_eq_some hsettings
      rw [hfile {} _ hnames hs'] at htext
      refine ⟨settings, ?_, hagree⟩
      rw [← hparsed, ← Option.some.inj htext, savedAt, hkind, hsaver]
    · intro h env s' hs'
      by_cases hnames : g.controlNames = []
      · exact .inl hnames
      · have hparsed : ∃ settings,
            settingsOf json11 (g.savedAt json11 numDomain s).json = .ok settings ∧
              Agree settings (g.settings numDomain s) := by
          have hfresh : ∃ settings, settingsOf json11
              (ofSettings json11 (g.settings numDomain s)).json = .ok settings ∧
              Agree settings (g.settings numDomain s) :=
            ⟨_, SaveControl.settingsOf_dump htrips, .of_text (finite_settings_nodup s)⟩
          unfold savedAt
          cases hkind : g.kind with
          | msr => exact hfresh
          | sysfs =>
            cases hsaver : s.saved.controlSaver g.name with
            | none => exact hfresh
            | some saver => exact h hkind hnames saver hsaver
        obtain ⟨settings, hsettings, hagree⟩ := hparsed
        refine .inr ⟨settings, ?_, hagree⟩
        unfold fileSettings
        rw [hfile env s' hnames hs', Option.bind_some, hsettings]
        rfl

/-- The state after an operation, whether it returns or raises. -/
def after (g : Group) (json11 : Json11) (numDomain : ℤ → ℕ) (s : State) (l : Op × Env) : State :=
  final (g.call json11 numDomain l.2 l.1) s

/-- A process that has not saved yet. -/
def started (controls : Controls) (files : String → Option String) : State where
  saved := { controls := controls, files := files }

/-- In every run each operation does what the last save or the file asks for just when the copies
are fresh in each of them. -/
theorem along_doesAsSaved_iff (g : Group) (json11 : Json11) (numDomain : ℤ → ℕ)
    (controls : Controls) (files : String → Option String) (run : List (Op × Env))
    (htrips : Lts.Along (fun s _ => json11.RoundTrips (g.settings numDomain s))
      (g.after json11 numDomain) (started controls files) run) :
    Lts.Along (fun s l => g.DoesAsSaved json11 numDomain s l.1) (g.after json11 numDomain)
        (started controls files) run ↔
      Lts.Along (fun s l => g.Fresh json11 numDomain s l.1) (g.after json11 numDomain)
        (started controls files) run := by
  have hkept : WellKept g numDomain (started controls files) := fun _ h => nomatch h
  generalize started controls files = s at *
  induction run generalizing s with
  | nil => exact Iff.rfl
  | cons l run ih =>
    exact and_congr (doesAsSaved_iff hkept htrips.1 l.1) (ih _ htrips.2 (hkept.call l))

end Runs

end Group

/-! ### A second save -/

/-- A sysfs IOGroup with one control. -/
def limitGroup : Group where
  kind := .sysfs
  name := "SYSFS"
  controlNames := ["SYSFS::LIMIT"]
  controlDomainType _ := 0
  aliases := []
  nodup := nodup_singleton _
  own := by simp

/-- The text of its settings, up to the limit. -/
def limitText : String :=
  "[\x7b\"domain_idx\": 0, \"domain_type\": 0, \"name\": \"SYSFS::LIMIT\", \"setting\": "

/-- The text of its settings, and the settings of the text, where the limit is 1 or 5. -/
def limitJson : Json11 where
  dump
    | .array [.object [_, _, _, (_, .number (.num 1))]] => limitText ++ "1\x7d]"
    | _ => limitText ++ "5\x7d]"
  parse text :=
    if text = limitText ++ "1\x7d]" then
      .ok (settingsJson [⟨"SYSFS::LIMIT", 0, 0, .num 1⟩])
    else .ok (settingsJson [⟨"SYSFS::LIMIT", 0, 0, .num 5⟩])

/-- The limit is 1 when the process starts. -/
def limitStart : State := Group.started { value := fun _ _ => .num 1 } fun _ => none

/-- The limit is saved, set to 5 and restored. -/
theorem along_doesAsSaved_iff_limit :
    Lts.Along (fun s l => limitGroup.DoesAsSaved limitJson oneBoard s l.1)
      (limitGroup.after limitJson oneBoard) limitStart
      [(.saveControlAt "first", {}), (.writeControl ⟨"SYSFS::LIMIT", 0, 0⟩ (.num 5), {}),
        (.restoreControlAt "first", {})] := by
  refine (Group.along_doesAsSaved_iff limitGroup limitJson oneBoard _ _ _ ?_).mpr ?_
  · exact ⟨rfl, rfl, rfl, trivial⟩
  · refine ⟨fun _ _ saver hsaver => (nomatch hsaver), trivial, fun settings hfile => ?_, trivial⟩
    have hfirst : some settings = some [⟨"SYSFS::LIMIT", 0, 0, .num 1⟩] :=
      hfile.symm.trans (by decide +kernel)
    obtain rfl := Option.some.inj hfirst
    let s₂ := List.foldl (limitGroup.after limitJson oneBoard) limitStart
      [(.saveControlAt "first", {}), (.writeControl ⟨"SYSFS::LIMIT", 0, 0⟩ (.num 5), {})]
    have hkept : limitGroup.restoredAt limitJson s₂ "first" = [⟨"SYSFS::LIMIT", 0, 0, .num 1⟩] := by
      decide +kernel
    have hleaves : limitGroup.leaves oneBoard ⟨"SYSFS::LIMIT", 0, 0⟩
        ⟨"SYSFS::LIMIT", 0, 0, .num 1⟩ = some (.num 1) := by decide +kernel
    have hone : ∀ x ∈ finiteOf [⟨"SYSFS::LIMIT", 0, 0, .num 1⟩],
        x = ⟨"SYSFS::LIMIT", 0, 0, .num 1⟩ := fun x hx =>
      mem_singleton.mp (mem_of_mem_filter hx)
    change limitGroup.Agrees oneBoard (limitGroup.restoredAt limitJson s₂ "first") _ _
    rw [hkept]
    intro _ y hy
    rw [hone y hy]
    refine ⟨fun x hx e he => ?_, fun h => ?_⟩
    · rw [hone x hx] at he
      rw [Option.some.inj (he.symm.trans hleaves)]
      rfl
    · exact nomatch hleaves.symm.trans (h _ (by decide +kernel))

/-- The limit is saved, set to 5 and saved again: the second file has the limit of the first. -/
theorem first_save_stays :
    ¬ Lts.Along (fun s l => limitGroup.DoesAsSaved limitJson oneBoard s l.1)
      (limitGroup.after limitJson oneBoard) limitStart
      [(.saveControlAt "first", {}), (.writeControl ⟨"SYSFS::LIMIT", 0, 0⟩ (.num 5), {}),
        (.saveControlAt "second", {})] := by
  rintro ⟨-, -, h, -⟩
  obtain ⟨settings, hsettings, hagree⟩ :=
    (h {} _ (eq_ok_of_returns (by decide +kernel))).resolve_left (by decide)
  have hfirst : some settings = some [⟨"SYSFS::LIMIT", 0, 0, .num 1⟩] :=
    hsettings.symm.trans (by decide +kernel)
  obtain rfl := Option.some.inj hfirst
  have heq := hagree.values ⟨"SYSFS::LIMIT", 0, 0, .num 1⟩ (by decide +kernel)
    ⟨"SYSFS::LIMIT", 0, 0, .num 5⟩ (by decide +kernel) rfl
  revert heq
  decide +kernel

end Geopm.Pio.SaveHistory
