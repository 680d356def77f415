import Geopm.Double
import Geopm.Pio.IOGroup

/-!
# Saving and restoring controls

`PlatformIO` saves the controls of each IOGroup in a file of its own and writes them back later,
each of them twice if need be.

* `Setting`, `SaveControl` : the settings of an IOGroup and their JSON text;
* `SaveControl.restore` : the passes over the settings;
* `SavingGroup` : what an IOGroup does to save and to restore its controls;
* `saveControl`, `restoreControl` : the methods of `PlatformIO`;
* `Undone` : what a restore is meant to do, for the state in which the controls were saved;
* `undone_iff` : it does so exactly when no IOGroup holds settings of an earlier save that differ;
* `old_snapshot` : a restore that returns to the state of an earlier save.
-/

namespace Geopm.Pio

open Prog
open List hiding get modify set

/-! ### The settings and their text -/

/-- A JSON value, as `json11` has it.  The fields of an object are in the order of their names. -/
inductive Json where
  | null
  | bool (value : Bool)
  | number (value : Double)
  | string (value : String)
  | array (items : List Json)
  | object (fields : List (String × Json))

namespace Json

def stringValue : Json → String
  | string value => value
  | _ => ""

def numberValue : Json → Double
  | number value => value
  | _ => .num 0

def intValue : Json → ℤ
  | number (.num x) => x.num.tdiv x.den
  | _ => 0

/-- `Json::operator[]`. -/
def get (fields : List (String × Json)) (key : String) : Json := (fields.lookup key).getD null

end Json

/-- The text of a JSON value, and the value of a text. -/
structure Json11 where
  dump : Json → String
  parse : String → Except String Json

/-- `SaveControl::m_setting_s`. -/
structure Setting where
  name : String
  domainType : ℤ
  domainIdx : ℤ
  setting : Double
deriving DecidableEq

namespace Setting

/-- The control that is set. -/
def request (ss : Setting) : Request := ⟨ss.name, ss.domainType, ss.domainIdx⟩

/-- Two settings of one control to one value. -/
def Same (a b : Setting) : Prop := a.request = b.request ∧ a.setting.eq b.setting = true

/-- The object of a setting. -/
def json (ss : Setting) : Json :=
  .object [("domain_idx", .number (.num ss.domainIdx)),
    ("domain_type", .number (.num ss.domainType)), ("name", .string ss.name),
    ("setting", .number ss.setting)]

/-- The keys of the object of a setting. -/
def requiredKeys : List String := ["name", "domain_type", "domain_idx", "setting"]

/-- A setting from its object. -/
def ofJson : Json → Except Exception Setting
  | .object fields =>
    if fields.length ≠ requiredKeys.length then
      .error ⟨"SaveControlImp::Settings(): JSON object representing m_setting_s must have four " ++
        "fields", [], .invalid⟩
    else match requiredKeys.find? fun rk => (fields.lookup rk).isNone with
      | some rk => .error ⟨"SaveControlImp::settings(): Invalid settings object JSON, missing a " ++
          "required field: \"" ++ rk ++ "\"", [], .invalid⟩
      | none => .ok ⟨(Json.get fields "name").stringValue, (Json.get fields "domain_type").intValue,
          (Json.get fields "domain_idx").intValue, (Json.get fields "setting").numberValue⟩
  | _ => .error ⟨"SaveControlImp::settings(): Expected a JSON object, unable to parse", [],
      .invalid⟩

end Setting

open Setting (request)

/-- The settings that `std::isfinite` accepts. -/
def finiteOf (settings : List Setting) : List Setting := settings.filter (·.setting.isFinite)

/-- The array of the finite settings. -/
def settingsJson (settings : List Setting) : Json := .array ((finiteOf settings).map Setting.json)

/-- The members of `SaveControlImp`. -/
structure SaveControl where
  settings : List Setting
  json : String

namespace SaveControl

variable (json11 : Json11)

/-- `SaveControlImp::SaveControlImp` of a vector of settings. -/
def ofSettings (settings : List Setting) : SaveControl :=
  ⟨settings, json11.dump (settingsJson settings)⟩

/-- `SaveControlImp::settings` of a text. -/
def settingsOf (text : String) : Except Exception (List Setting) :=
  match json11.parse text with
  | .ok (.array items) => items.mapM Setting.ofJson
  | .ok _ => .error ⟨"SaveControlImp::settings(): Expected a JSON array, unable to parse: ", [],
      .invalid⟩
  | .error err => .error ⟨"SaveControlImp::settings(): Expected a JSON array, unable to parse: " ++
      err, [], .invalid⟩

/-- `SaveControlImp::SaveControlImp` of a text. -/
def ofText (text : String) : Except Exception SaveControl :=
  (settingsOf json11 text).map fun settings => ⟨settings, text⟩

end SaveControl

/-! ### The platform -/

/-- What an attempt to write a control does: it sets the control, or raises, and may have changed
the control before it did. -/
inductive WriteOutcome where
  | writes
  | raises (left : Option Double)
deriving DecidableEq

/-- The value of a control after an attempt to write `new`. -/
def WriteOutcome.after (old new : Double) : WriteOutcome → Double
  | writes => new
  | raises left => left.getD old

/-- The native controls of the IOGroups, each of them independent of the others, and the attempts
that have been made to restore them. -/
structure Controls where
  value : String → Request → Double
  attempts : List (String × Request) := []

/-- What the attempts to restore the controls of an IOGroup do, by their numbers. -/
abbrev WriteOutcomes := String → Request → ℕ → WriteOutcome

/-- Whether an attempt to write the setting returns. -/
def WriteOutcomes.isWritten (outcomes : WriteOutcomes) (group : String) (attempt : ℕ)
    (ss : Setting) : Bool :=
  decide (outcomes group ss.request attempt = .writes)

namespace Controls

/-- Set the control of an IOGroup. -/
def set (group : String) (t : Request) (x : Double) (w : Controls) : Controls :=
  ⟨fun g t' => if g = group ∧ t' = t then x else w.value g t', w.attempts⟩

/-- `write_control`, in the attempt with the number. -/
def write (outcomes : WriteOutcomes) (group : String) (attempt : ℕ) (ss : Setting) (w : Controls) :
    Controls :=
  let outcome := outcomes group ss.request attempt
  let w := w.set group ss.request (outcome.after (w.value group ss.request) ss.setting)
  ⟨w.value, w.attempts ++ [(group, ss.request)]⟩

end Controls

/-! ### The passes of a restore -/

def maxRestoreRetries : ℕ := 1

/-- The variables of `SaveControlImp::restore`. -/
structure Restoring where
  isRestored : List (Setting × Bool)
  unwrittenControls : Finset String
  controls : Controls

/-- One pass over the settings that have not been restored yet. -/
def restorePass (outcomes : WriteOutcomes) (group : String) (attempt : ℕ) :
    List (Setting × Bool) → Finset String → Controls → Restoring
  | [], unwritten, w => ⟨[], unwritten, w⟩
  | (ss, isRestored) :: rest, unwritten, w =>
    if isRestored || !ss.setting.isFinite then
      let r := restorePass outcomes group attempt rest unwritten w
      ⟨(ss, true) :: r.isRestored, r.unwrittenControls, r.controls⟩
    else
      let isWritten := outcomes.isWritten group attempt ss
      let unwritten :=
        if !isWritten && attempt == maxRestoreRetries then insert ss.name unwritten else unwritten
      let r := restorePass outcomes group attempt rest unwritten
        (w.write outcomes group attempt ss)
      ⟨(ss, isWritten) :: r.isRestored, r.unwrittenControls, r.controls⟩

/-- What `SaveControlImp::restore` raises. -/
def restoreError (unwritten : Finset String) : Option Exception :=
  if unwritten = ∅ then none
  else some ⟨(unwritten.sort (· ≤ ·)).foldl (fun errMsg name => errMsg ++ (name ++ " "))
    "SaveControlImp::restore(): The following controls could not be restored: ", [], .runtime⟩

/-- `SaveControlImp::restore`. -/
def SaveControl.restore (outcomes : WriteOutcomes) (group : String) (saver : SaveControl)
    (w : Controls) : Option Exception × Controls :=
  let first : Restoring := ⟨saver.settings.map (·, false), ∅, w⟩
  let last := (List.range (maxRestoreRetries + 1)).foldl (fun r attempt =>
    restorePass outcomes group attempt r.isRestored r.unwrittenControls r.controls) first
  (restoreError last.unwrittenControls, last.controls)

/-! ### IOGroups and `PlatformIO` -/

/-- How an IOGroup saves: not at all, by a file that it reads back, or by a file and a
`m_control_saver` that it keeps. -/
inductive Keeps where
  | nothing
  | file
  | snapshot
deriving DecidableEq

/-- What saving and restoring uses of an IOGroup. -/
structure SavingGroup where
  name : String
  controlNames : List String
  controlDomainType : String → ℤ
  keeps : Keeps
  nodup : controlNames.Nodup

/-- The controls of the platform, the `m_control_saver` of the IOGroups, and the files. -/
structure Saved where
  controls : Controls
  controlSaver : String → Option SaveControl := fun _ => none
  files : String → Option String := fun _ => none

/-- What the system answers to a save: the errors of reads, and of files opened for writing. -/
structure Answers where
  readError : String → Request → Option Exception := fun _ _ => none
  openError : String → Option Exception := fun _ => none

def writeFile (answers : Answers) (path contents : String) : EStateM Exception Saved Unit := do
  match answers.openError path with
  | some e => throw e
  | none => modify fun s =>
      ⟨s.controls, s.controlSaver, fun p => if p = path then some contents else s.files p⟩

def readFile (path : String) : EStateM Exception Saved String := do
  match (← get).files path with
  | some contents => pure contents
  | none => throw ⟨"Helper::read_file(): file \"" ++ path ++ "\" could not be opened", [], .invalid⟩

namespace SavingGroup

variable (json11 : Json11) (numDomain : ℤ → ℕ) (answers : Answers) (outcomes : WriteOutcomes)
  (g : SavingGroup)

/-- The native controls. -/
def requests : List Request :=
  (g.controlNames.filter fun name => (g.name ++ "::").toList.isPrefixOf name.toList).flatMap
    fun name => (List.range (numDomain (g.controlDomainType name))).map
      fun (domIdx : ℕ) => ⟨name, g.controlDomainType name, domIdx⟩

/-- The settings of the native controls. -/
def settings (w : Controls) : List Setting :=
  (g.requests numDomain).map fun t => ⟨t.name, t.domainType, t.domainIdx, w.value g.name t⟩

/-- `SaveControlImp::SaveControlImp` of an IOGroup, which raises what its first failing read
raises. -/
def saver (w : Controls) : Except Exception SaveControl :=
  match (g.requests numDomain).findSome? (answers.readError g.name) with
  | some e => .error e
  | none => .ok (SaveControl.ofSettings json11 (g.settings numDomain w))

/-- Set the `m_control_saver`. -/
def keep (saver : SaveControl) (s : Saved) : Saved :=
  ⟨s.controls, fun n => if n = g.name then some saver else s.controlSaver n, s.files⟩

/-- The `save_control` of an IOGroup. -/
def saveControl (savePath : String) : EStateM Exception Saved Unit :=
  match g.keeps with
  | .nothing => pure ()
  | .file => do
    let saver ← ret (g.saver json11 numDomain answers (← get).controls)
    writeFile answers savePath saver.json
  | .snapshot =>
    if g.controlNames = [] then pure () else do
      let s ← get
      match s.controlSaver g.name with
      | some saver => writeFile answers savePath saver.json
      | none => do
        let saver ← ret (g.saver json11 numDomain answers s.controls)
        set (g.keep saver s)
        writeFile answers savePath saver.json

/-- Write the settings back. -/
def writeBack (saver : SaveControl) : EStateM Exception Saved Unit := do
  let s ← get
  let r := saver.restore outcomes g.name s.controls
  set (⟨r.2, s.controlSaver, s.files⟩ : Saved)
  match r.1 with
  | some e => throw e
  | none => pure ()

/-- The `restore_control` of an IOGroup. -/
def restoreControl (savePath : String) : EStateM Exception Saved Unit :=
  match g.keeps with
  | .nothing => pure ()
  | .file => do
    let text ← readFile savePath
    let saver ← ret (SaveControl.ofText json11 text)
    g.writeBack outcomes saver
  | .snapshot => do
    let s ← get
    match s.controlSaver g.name with
    | some saver => g.writeBack outcomes saver
    | none =>
      if g.controlNames = [] then pure () else do
        let text ← readFile savePath
        let saver ← ret (SaveControl.ofText json11 text)
        modify (g.keep saver)
        g.writeBack outcomes saver

/-- The file of an IOGroup. -/
def savePath (saveDir : String) : String := saveDir ++ ("/" ++ (g.name ++ "-save-control.json"))

end SavingGroup

section PlatformIO

variable (json11 : Json11) (numDomain : ℤ → ℕ) (answers : Answers) (outcomes : WriteOutcomes)
  (groups : List SavingGroup) (saveDir : String)

def saveControl : EStateM Exception Saved Unit :=
  groups.forM fun g => g.saveControl json11 numDomain answers (g.savePath saveDir)

/-- Restore one IOGroup and collect what it raises. -/
def collectError (restoreErrors : String) (g : SavingGroup) : EStateM Exception Saved String :=
  tryCatch
    (do g.restoreControl json11 outcomes (g.savePath saveDir); pure restoreErrors)
    fun ex =>
      pure ((if restoreErrors = "" then restoreErrors else restoreErrors ++ "; ") ++ ex.what)

def restoreControl : EStateM Exception Saved Unit := do
  let restoreErrors ← groups.foldlM (collectError json11 outcomes saveDir) ""
  if restoreErrors ≠ "" then
    throw ⟨"PlatformIOImp::restore_control(): Errors occurred during restore: " ++ restoreErrors,
      [], .runtime⟩

end PlatformIO

/-! ### The text of the settings -/

namespace Setting

/-- The setting without the sign of a zero, which the text of an integer does not have. -/
def unsigned (ss : Setting) : Setting := ⟨ss.name, ss.domainType, ss.domainIdx, ss.setting.unsigned⟩

theorem ofJson_json (ss : Setting) : ofJson ss.json = .ok ss := by
  obtain ⟨name, domainType, domainIdx, setting⟩ := ss
  simp [json, ofJson, requiredKeys, Json.get, Json.stringValue, Json.intValue, Json.numberValue,
    List.lookup]

end Setting

theorem finiteOf_unsigned (settings : List Setting) :
    finiteOf (settings.map Setting.unsigned) = (finiteOf settings).map Setting.unsigned := by
  unfold finiteOf
  rw [filter_map]
  congr 1
  refine filter_congr fun ss _ => ?_
  obtain ⟨_, _, _, x⟩ := ss
  cases x <;> rfl

/-- `json11` reads the settings that it has written, without the sign of a zero. -/
def Json11.RoundTrips (json11 : Json11) (settings : List Setting) : Prop :=
  json11.parse (json11.dump (settingsJson settings)) =
    .ok (settingsJson (settings.map Setting.unsigned))

theorem SaveControl.settingsOf_dump {json11 : Json11} {settings : List Setting}
    (h : json11.RoundTrips settings) :
    settingsOf json11 (json11.dump (settingsJson settings)) =
      .ok ((finiteOf settings).map Setting.unsigned) := by
  unfold settingsOf
  rw [h]
  change ((finiteOf _).map Setting.json).mapM Setting.ofJson = _
  rw [finiteOf_unsigned, mapM_eq_ok, forall₂_map_left_iff]
  exact forall₂_same.mpr fun ss _ => Setting.ofJson_json ss

/-! ### The passes -/

variable {group : String} {attempt : ℕ}

section Passes

variable {outcomes : WriteOutcomes}

/-- The settings that a pass writes. -/
def todo (ps : List (Setting × Bool)) : List Setting :=
  finiteOf ((ps.filter fun p => !p.2).map Prod.fst)

/-- The settings that the attempt does not write. -/
def unwritten (outcomes : WriteOutcomes) (group : String) (attempt : ℕ) (settings : List Setting) :
    List Setting :=
  settings.filter fun ss => !outcomes.isWritten group attempt ss

/-- Attempts on settings one after the other. -/
def Controls.writeAll (outcomes : WriteOutcomes) (group : String) (attempt : ℕ)
    (settings : List Setting) (w : Controls) : Controls :=
  settings.foldl (fun w ss => w.write outcomes group attempt ss) w

theorem restorePass_eq (ps : List (Setting × Bool)) (names : Finset String) (w : Controls) :
    restorePass outcomes group attempt ps names w =
      ⟨ps.map fun p => (p.1, p.2 || !p.1.setting.isFinite || outcomes.isWritten group attempt p.1),
        if attempt = maxRestoreRetries then
          names ∪ ((unwritten outcomes group attempt (todo ps)).map (·.name)).toFinset
        else names,
        w.writeAll outcomes group attempt (todo ps)⟩ := by
  induction ps generalizing names w with
  | nil => simp [restorePass, todo, finiteOf, unwritten, Controls.writeAll]
  | cons p ps ih =>
    obtain ⟨ss, isRestored⟩ := p
    rw [restorePass]
    by_cases h : (isRestored || !ss.setting.isFinite) = true
    · -- nothing is left to do for the setting
      have htodo : todo ((ss, isRestored) :: ps) = todo ps := by
        cases isRestored with
        | true => rfl
        | false =>
          have hss : ss.setting.isFinite = false := by simpa using h
          simp [todo, finiteOf, hss]
      rw [if_pos h, htodo]
      simp [ih, h]
    · have hrestored : isRestored = false := by cases isRestored <;> simp_all
      have hss : ss.setting.isFinite = true := by cases hf : ss.setting.isFinite <;> simp_all
      have htodo : todo ((ss, isRestored) :: ps) = ss :: todo ps := by
        simp [todo, finiteOf, hrestored, hss]
      rw [if_neg h, htodo]
      by_cases hmax : attempt = maxRestoreRetries
      · subst hmax
        cases hw : outcomes.isWritten group maxRestoreRetries ss <;>
          simp [ih, hrestored, hss, hw, unwritten, Controls.writeAll]
      · simp [ih, hrestored, hss, hmax, Controls.writeAll]

/-- What a restore attempts first. -/
theorem todo_first (settings : List Setting) :
    todo (settings.map (·, false)) = finiteOf settings := by
  unfold todo
  congr 1
  rw [filter_eq_self.mpr]
  · rw [map_map]
    exact map_id _
  · intro p hp
    obtain ⟨ss, -, rfl⟩ := mem_map.mp hp
    rfl

theorem todo_again (settings : List Setting) :
    todo ((settings.map (·, false)).map fun p =>
        (p.1, p.2 || !p.1.setting.isFinite || outcomes.isWritten group attempt p.1)) =
      unwritten outcomes group attempt (finiteOf settings) := by
  induction settings with
  | nil => rfl
  | cons ss settings ih =>
    unfold todo finiteOf unwritten at *
    rw [map_cons, map_cons, filter_cons, filter_cons]
    cases hss : ss.setting.isFinite <;> cases hw : outcomes.isWritten group attempt ss <;>
      simp_all

/-- The settings that neither of the two attempts writes. -/
def failing (outcomes : WriteOutcomes) (group : String) (settings : List Setting) : List Setting :=
  unwritten outcomes group 1 (unwritten outcomes group 0 (finiteOf settings))

/-- The controls after a restore. -/
def Controls.restored (outcomes : WriteOutcomes) (group : String) (settings : List Setting)
    (w : Controls) : Controls :=
  (w.writeAll outcomes group 0 (finiteOf settings)).writeAll outcomes group 1
    (unwritten outcomes group 0 (finiteOf settings))

theorem SaveControl.restore_eq (saver : SaveControl) (w : Controls) :
    saver.restore outcomes group w =
      (restoreError ((failing outcomes group saver.settings).map (·.name)).toFinset,
        w.restored outcomes group saver.settings) := by
  unfold SaveControl.restore
  change (restoreError
      (restorePass _ _ 1 (restorePass _ _ 0 _ _ _).isRestored _ _).unwrittenControls,
    (restorePass _ _ 1 (restorePass _ _ 0 _ _ _).isRestored _ _).controls) = _
  simp only [restorePass_eq, todo_again, todo_first]
  simp [maxRestoreRetries, failing, Controls.restored]

end Passes

/-! ### What the attempts do to the controls -/

variable {settings : List Setting}

namespace Controls

variable {outcomes : WriteOutcomes} {w : Controls}

theorem writeAll_attempts :
    (w.writeAll outcomes group attempt settings).attempts =
      w.attempts ++ settings.map fun ss => (group, ss.request) := by
  induction settings generalizing w with
  | nil => exact (append_nil _).symm
  | cons ss settings ih =>
    change (writeAll outcomes group attempt settings
      (w.write outcomes group attempt ss)).attempts = _
    rw [ih]
    simp [write, set]

theorem restored_attempts :
    (w.restored outcomes group settings).attempts = w.attempts ++
      (finiteOf settings ++ unwritten outcomes group 0 (finiteOf settings)).map
        fun ss => (group, ss.request) := by
  unfold restored
  rw [writeAll_attempts, writeAll_attempts, map_append, append_assoc]

/-- Attempts leave the other controls as they are. -/
theorem writeAll_value_other {g : String} {t : Request}
    (h : g = group → t ∉ settings.map request) :
    (w.writeAll outcomes group attempt settings).value g t = w.value g t := by
  induction settings generalizing w with
  | nil => rfl
  | cons ss settings ih =>
    change (writeAll outcomes group attempt settings
      (w.write outcomes group attempt ss)).value g t = _
    rw [ih fun hg hmem => h hg (mem_cons_of_mem _ hmem)]
    refine if_neg ?_
    rintro ⟨hg, ht⟩
    exact h hg (ht ▸ mem_cons_self)

theorem writeAll_value {ss : Setting} (hnodup : (settings.map request).Nodup)
    (hss : ss ∈ settings) :
    (w.writeAll outcomes group attempt settings).value group ss.request =
      (outcomes group ss.request attempt).after (w.value group ss.request) ss.setting := by
  induction settings generalizing w with
  | nil => cases hss
  | cons first settings ih =>
    change (writeAll outcomes group attempt settings
      (w.write outcomes group attempt first)).value group ss.request = _
    rw [map_cons, nodup_cons] at hnodup
    rcases mem_cons.mp hss with rfl | hmem
    · rw [writeAll_value_other fun _ => hnodup.1]
      exact if_pos ⟨rfl, rfl⟩
    · have hne : ss.request ≠ first.request := by
        intro heq
        exact hnodup.1 (heq ▸ mem_map_of_mem hmem)
      rw [ih hnodup.2 hmem]
      congr 1
      exact if_neg fun h => hne h.2

theorem restored_value_other {g : String} {t : Request}
    (h : g = group → t ∉ (finiteOf settings).map request) :
    (w.restored outcomes group settings).value g t = w.value g t := by
  unfold restored
  rw [writeAll_value_other, writeAll_value_other h]
  intro hg hmem
  refine h hg ?_
  obtain ⟨ss, hss, rfl⟩ := mem_map.mp hmem
  exact mem_map_of_mem (mem_of_mem_filter hss)

theorem restored_value {ss : Setting} (hnodup : ((finiteOf settings).map request).Nodup)
    (hss : ss ∈ finiteOf settings)
    (hwritten : outcomes.isWritten group 0 ss = true ∨ outcomes.isWritten group 1 ss = true) :
    (w.restored outcomes group settings).value group ss.request = ss.setting := by
  have hagain : ((unwritten outcomes group 0 (finiteOf settings)).map request).Nodup :=
    hnodup.sublist (filter_sublist.map _)
  unfold restored
  by_cases hfirst : outcomes.isWritten group 0 ss = true
  · rw [writeAll_value_other, writeAll_value hnodup hss, of_decide_eq_true hfirst]
    · rfl
    · -- it is not attempted again
      rintro - hmem
      obtain ⟨other, hother, heq⟩ := mem_map.mp hmem
      have hunwritten := (mem_filter.mp hother).2
      have hsame : outcomes.isWritten group 0 other = outcomes.isWritten group 0 ss := by
        unfold WriteOutcomes.isWritten
        rw [heq]
      rw [hsame, hfirst] at hunwritten
      cases hunwritten
  · have hmem : ss ∈ unwritten outcomes group 0 (finiteOf settings) :=
      mem_filter.mpr ⟨hss, by simpa using hfirst⟩
    rw [writeAll_value hagain hmem, of_decide_eq_true (hwritten.resolve_left hfirst)]
    rfl

end Controls

/-! ### What a restore does -/

section Restore

variable {json11 : Json11} {outcomes : WriteOutcomes} {s : Saved}

/-- The settings that an IOGroup writes back. -/
def SavingGroup.Holds (json11 : Json11) (g : SavingGroup) (path : String) (settings : List Setting)
    (s : Saved) : Prop :=
  match g.keeps with
  | .nothing => settings = []
  | .file => ∃ text, s.files path = some text ∧ SaveControl.settingsOf json11 text = .ok settings
  | .snapshot => (∃ saver, s.controlSaver g.name = some saver ∧ saver.settings = settings) ∨
      s.controlSaver g.name = none ∧ g.controlNames = [] ∧ settings = []

/-- What the restore of an IOGroup raises. -/
def SavingGroup.error (outcomes : WriteOutcomes) (g : SavingGroup) (settings : List Setting) :
    Option Exception :=
  restoreError ((failing outcomes g.name settings).map (·.name)).toFinset

/-- The state after the settings have been written back. -/
def Saved.writtenBack (outcomes : WriteOutcomes) (g : SavingGroup) (settings : List Setting)
    (s : Saved) : Saved :=
  ⟨s.controls.restored outcomes g.name settings, s.controlSaver, s.files⟩

/-- Return, or raise what is there. -/
def answer (e : Option Exception) (s : Saved) : EStateM.Result Exception Saved Unit :=
  match e with
  | some e => .error e s
  | none => .ok () s

theorem SavingGroup.writeBack_eq (g : SavingGroup) (saver : SaveControl) :
    g.writeBack outcomes saver s =
      answer (g.error outcomes saver.settings) (s.writtenBack outcomes g saver.settings) := by
  have h : saver.restore outcomes g.name s.controls = _ := saver.restore_eq s.controls
  change (match (saver.restore outcomes g.name s.controls).1 with
    | some e => (throw e : EStateM Exception Saved Unit)
    | none => pure ()) ⟨(saver.restore outcomes g.name s.controls).2, s.controlSaver, s.files⟩ = _
  rw [h]
  unfold SavingGroup.error answer
  cases restoreError ((failing outcomes g.name saver.settings).map (·.name)).toFinset <;> rfl

variable {g : SavingGroup}

theorem SavingGroup.restoreControl_eq {path : String}
    (h : g.Holds json11 path settings s) :
    g.restoreControl json11 outcomes path s =
      answer (g.error outcomes settings) (s.writtenBack outcomes g settings) := by
  unfold Holds at h
  unfold restoreControl
  cases hkeeps : g.keeps with
  | nothing =>
    rw [hkeeps] at h
    subst h
    rfl
  | file =>
    rw [hkeeps] at h
    obtain ⟨text, hfile, htext⟩ := h
    have hread : readFile path s = .ok text s := by
      change (match s.files path with
        | some contents => (pure contents : EStateM Exception Saved String)
        | none => throw _) s = _
      rw [hfile]
      rfl
    have hsaver : SaveControl.ofText json11 text = .ok ⟨settings, text⟩ := by
      unfold SaveControl.ofText
      rw [htext]
      rfl
    dsimp only
    rw [bind_of_ok hread, hsaver]
    exact g.writeBack_eq ⟨settings, text⟩
  | snapshot =>
    rw [hkeeps] at h
    dsimp only
    rw [bind_of_ok (rfl : (get : EStateM Exception Saved Saved) s = .ok s s)]
    rcases h with ⟨saver, hsaver, rfl⟩ | ⟨hnone, hnames, rfl⟩
    · rw [hsaver]
      exact g.writeBack_eq saver
    · rw [hnone]
      dsimp only
      rw [if_pos hnames]
      rfl

/-- The errors of the IOGroups, in the order of the list. -/
def errors (outcomes : WriteOutcomes) (source : SavingGroup → List Setting)
    (groups : List SavingGroup) : List String :=
  (groups.filterMap fun g => g.error outcomes (source g)).map (·.what)

/-- The state after a restore of all IOGroups. -/
def Saved.restored (outcomes : WriteOutcomes) (source : SavingGroup → List Setting)
    (groups : List SavingGroup) (s : Saved) : Saved :=
  groups.foldl (fun s g => s.writtenBack outcomes g (source g)) s

/-- Add an error to the text. -/
def joinError (restoreErrors what : String) : String :=
  (if restoreErrors = "" then restoreErrors else restoreErrors ++ "; ") ++ what

variable {saveDir : String}

theorem collectError_eq (h : g.Holds json11 (g.savePath saveDir) settings s) (restoreErrors : String) :
    collectError json11 outcomes saveDir restoreErrors g s =
      .ok (((g.error outcomes settings).map (·.what)).elim restoreErrors (joinError restoreErrors))
        (s.writtenBack outcomes g settings) := by
  have hrestore : g.restoreControl json11 outcomes (g.savePath saveDir) s = _ :=
    SavingGroup.restoreControl_eq h
  change EStateM.tryCatch _ _ s = _
  unfold EStateM.tryCatch
  cases herror : g.error outcomes settings with
  | none =>
    rw [herror] at hrestore
    rw [bind_of_ok hrestore]
    rfl
  | some e =>
    rw [herror] at hrestore
    rw [bind_of_error hrestore]
    rfl

theorem collectErrors_eq {source : SavingGroup → List Setting}
    {groups : List SavingGroup}
    (h : ∀ g ∈ groups, g.Holds json11 (g.savePath saveDir) (source g) s) (restoreErrors : String) :
    groups.foldlM (collectError json11 outcomes saveDir) restoreErrors s =
      .ok ((errors outcomes source groups).foldl joinError restoreErrors)
        (s.restored outcomes source groups) := by
  induction groups generalizing s restoreErrors with
  | nil => rfl
  | cons g groups ih =>
    have hrest : ∀ g' ∈ groups, g'.Holds json11 (g'.savePath saveDir) (source g')
        (s.writtenBack outcomes g (source g)) := fun g' hg' => h g' (mem_cons_of_mem _ hg')
    rw [foldlM_cons, bind_of_ok (collectError_eq (h g mem_cons_self) restoreErrors)]
    refine (ih hrest _).trans ?_
    unfold errors
    rw [filterMap_cons]
    cases herror : g.error outcomes (source g) <;> rfl

theorem intercalate_ne_empty {separator what : String} {whats : List String} (h : what ≠ "") :
    separator.intercalate (what :: whats) ≠ "" := by
  cases whats with
  | nil => rwa [String.intercalate_singleton]
  | cons next whats =>
    rw [String.intercalate_cons_cons]
    intro heq
    exact h (String.append_eq_empty_iff.mp (String.append_eq_empty_iff.mp heq).1).1

theorem joinError_foldl {whats : List String} (h : ∀ what ∈ whats, what ≠ "") :
    whats.foldl joinError "" = "; ".intercalate whats := by
  induction whats using List.reverseRecOn with
  | nil => rw [String.intercalate_nil]; rfl
  | append_singleton whats what ih =>
    rw [List.foldl_append, ih fun w hw => h w (mem_append_left _ hw)]
    cases whats with
    | nil => simp [joinError, String.intercalate_nil, String.intercalate_singleton]
    | cons first whats =>
      rw [String.intercalate_append_of_ne_nil (cons_ne_nil _ _) (cons_ne_nil _ _),
        String.intercalate_singleton]
      change (if _ then _ else _) ++ what = _
      rw [if_neg (intercalate_ne_empty (h first (by simp)))]

theorem SavingGroup.error_eq_none :
    g.error outcomes settings = none ↔ failing outcomes g.name settings = [] := by
  unfold error restoreError
  rw [ite_eq_left_iff]
  simp

/-- The text of an error is not empty. -/
theorem SavingGroup.error_ne_empty {e : Exception}
    (h : g.error outcomes settings = some e) : e.what ≠ "" := by
  unfold error restoreError at h
  split_ifs at h
  obtain rfl := Option.some.inj h
  have hfold : ∀ (names : List String) (errMsg : String), errMsg ≠ "" →
      names.foldl (fun errMsg name => errMsg ++ (name ++ " ")) errMsg ≠ "" := by
    intro names
    induction names with
    | nil => exact fun _ h => h
    | cons name names ih =>
      exact fun errMsg h => ih _ fun heq => h (String.append_eq_empty_iff.mp heq).1
  exact hfold _ _ (by decide)

/-- What `restore_control` raises. -/
def restoreErrors (outcomes : WriteOutcomes) (source : SavingGroup → List Setting)
    (groups : List SavingGroup) : Option Exception :=
  if errors outcomes source groups = [] then none
  else some ⟨"PlatformIOImp::restore_control(): Errors occurred during restore: " ++
    "; ".intercalate (errors outcomes source groups), [], .runtime⟩

theorem restoreControl_eq {source : SavingGroup → List Setting}
    {groups : List SavingGroup}
    (h : ∀ g ∈ groups, g.Holds json11 (g.savePath saveDir) (source g) s) :
    restoreControl json11 outcomes groups saveDir s =
      answer (restoreErrors outcomes source groups) (s.restored outcomes source groups) := by
  have hne : ∀ what ∈ errors outcomes source groups, what ≠ "" := by
    intro what hwhat
    obtain ⟨e, he, rfl⟩ := mem_map.mp hwhat
    obtain ⟨g, -, hg⟩ := mem_filterMap.mp he
    exact SavingGroup.error_ne_empty hg
  unfold restoreControl
  rw [bind_of_ok (collectErrors_eq h ""), joinError_foldl hne]
  unfold restoreErrors
  cases herrors : errors outcomes source groups with
  | nil =>
    rw [String.intercalate_nil]
    rfl
  | cons what whats =>
    rw [herrors] at hne
    rw [if_pos (intercalate_ne_empty (hne what mem_cons_self)), if_neg (cons_ne_nil _ _)]
    rfl

end Restore

/-! ### What a save leaves -/

section Save

variable {json11 : Json11} {numDomain : ℤ → ℕ} {answers : Answers} {s s' s₁ : Saved}

/-- The settings that an IOGroup writes back after a save in the state. -/
def SavingGroup.source (numDomain : ℤ → ℕ) (s : Saved) (g : SavingGroup) : List Setting :=
  match g.keeps with
  | .nothing => []
  | .file => (finiteOf (g.settings numDomain s.controls)).map Setting.unsigned
  | .snapshot => (s.controlSaver g.name).elim (g.settings numDomain s.controls) (·.settings)

theorem SavingGroup.saver_eq_ok {g : SavingGroup} {w : Controls} {saver : SaveControl}
    (h : g.saver json11 numDomain answers w = .ok saver) :
    saver = SaveControl.ofSettings json11 (g.settings numDomain w) := by
  unfold SavingGroup.saver at h
  split at h
  · cases h
  · exact (Except.ok.inj h).symm

/-- The save of an IOGroup changes its own file and its own `m_control_saver`. -/
structure SavedBy (json11 : Json11) (numDomain : ℤ → ℕ) (g : SavingGroup) (path : String)
    (s s' : Saved) : Prop where
  controls : s'.controls = s.controls
  holds : g.Holds json11 path (g.source numDomain s) s'
  saverElsewhere : ∀ n, n ≠ g.name → s'.controlSaver n = s.controlSaver n
  fileElsewhere : ∀ p, p ≠ path → s'.files p = s.files p

theorem wp_writeFile {path contents : String} {Q : Saved → Prop}
    (h : Q ⟨s.controls, s.controlSaver, fun p => if p = path then some contents else s.files p⟩) :
    wp (writeFile answers path contents) (fun _ => Q) (fun _ _ => True) s := by
  unfold writeFile
  cases answers.openError path with
  | some e => exact trivial
  | none => exact h

theorem wp_ret_saver {g : SavingGroup} {w : Controls} {s : Saved} {Q : SaveControl → Saved → Prop}
    (h : Q (SaveControl.ofSettings json11 (g.settings numDomain w)) s) :
    wp (ret (g.saver json11 numDomain answers w)) Q (fun _ _ => True) s := by
  cases hsaver : g.saver json11 numDomain answers w with
  | error e => exact trivial
  | ok saver =>
    refine wp_ret rfl ?_
    rwa [SavingGroup.saver_eq_ok hsaver]

theorem SavingGroup.saveControl_spec (g : SavingGroup) (path : String)
    (h : g.keeps = .file → json11.RoundTrips (g.settings numDomain s.controls)) :
    wp (g.saveControl json11 numDomain answers path)
      (fun _ s' => SavedBy json11 numDomain g path s s') (fun _ _ => True) s := by
  unfold saveControl
  cases hkeeps : g.keeps with
  | nothing =>
    refine ⟨rfl, ?_, fun _ _ => rfl, fun _ _ => rfl⟩
    simp [Holds, source, hkeeps]
  | file =>
    dsimp only
    rw [wp_bind, wp_get, wp_bind]
    refine wp_ret_saver (wp_writeFile ⟨rfl, ?_, fun _ _ => rfl, fun p hp => if_neg hp⟩)
    unfold Holds source
    rw [hkeeps]
    exact ⟨_, if_pos rfl, SaveControl.settingsOf_dump (h hkeeps)⟩
  | snapshot =>
    dsimp only
    split_ifs with hnames
    · refine ⟨rfl, ?_, fun _ _ => rfl, fun _ _ => rfl⟩
      unfold Holds source
      rw [hkeeps]
      dsimp only
      cases hsaver : s.controlSaver g.name with
      | some saver => exact .inl ⟨saver, rfl, rfl⟩
      | none => exact .inr ⟨rfl, hnames, by simp [settings, requests, hnames]⟩
    · rw [wp_bind, wp_get]
      cases hsaver : s.controlSaver g.name with
      | some saver =>
        refine wp_writeFile ⟨rfl, ?_, fun _ _ => rfl, fun p hp => if_neg hp⟩
        unfold Holds source
        rw [hkeeps, hsaver]
        exact .inl ⟨saver, rfl, rfl⟩
      | none =>
        dsimp only
        rw [wp_bind]
        refine wp_ret_saver ?_
        rw [wp_bind, wp_set]
        refine wp_writeFile ⟨rfl, ?_, fun n hn => if_neg hn, fun p hp => if_neg hp⟩
        unfold Holds source
        rw [hkeeps, hsaver]
        exact .inl ⟨_, if_pos rfl, rfl⟩

variable {saveDir : String}

theorem SavingGroup.savePath_injective {g g' : SavingGroup}
    (h : g.savePath saveDir = g'.savePath saveDir) : g.name = g'.name := by
  unfold savePath at h
  rw [String.append_right_inj, String.append_right_inj, String.append_left_inj] at h
  exact h

/-- What an IOGroup holds is kept by the saves of the others. -/
theorem SavingGroup.Holds.of_savedBy {g g' : SavingGroup}
    {settings : List Setting} (h : g'.Holds json11 (g'.savePath saveDir) settings s)
    (hsaved : SavedBy json11 numDomain g (g.savePath saveDir) s s') (hname : g'.name ≠ g.name) :
    g'.Holds json11 (g'.savePath saveDir) settings s' := by
  have hfile := hsaved.fileElsewhere (g'.savePath saveDir) fun heq =>
    hname (SavingGroup.savePath_injective heq)
  unfold Holds at *
  rwa [hfile, hsaved.saverElsewhere _ hname]

/-- What the saves of some IOGroups leave. -/
structure SavedSoFar (json11 : Json11) (numDomain : ℤ → ℕ) (saveDir : String) (s : Saved)
    (done : List SavingGroup) (s' : Saved) : Prop where
  controls : s'.controls = s.controls
  holds : ∀ g ∈ done, g.Holds json11 (g.savePath saveDir) (g.source numDomain s) s'
  saverElsewhere : ∀ n, n ∉ done.map (·.name) → s'.controlSaver n = s.controlSaver n

/-- After a save every IOGroup holds its settings, and no control has changed. -/
theorem saveControl_holds {groups : List SavingGroup}
    (hnames : (groups.map (·.name)).Nodup)
    (htrips : ∀ g ∈ groups, g.keeps = .file → json11.RoundTrips (g.settings numDomain s.controls))
    (hsave : saveControl json11 numDomain answers groups saveDir s = .ok () s₁) :
    SavedSoFar json11 numDomain saveDir s groups s₁ := by
  have hwp : wp (saveControl json11 numDomain answers groups saveDir)
      (fun _ => SavedSoFar json11 numDomain saveDir s groups) (fun _ _ => True) s := by
    refine wp_forM_done ⟨rfl, by simp, fun _ _ => rfl⟩ ?_
    rintro pre g post rfl s' ⟨hcontrols, hpre, hsaver⟩
    rw [map_append, map_cons, nodup_append] at hnames
    have hg : g.name ∉ pre.map (·.name) := fun hmem =>
      hnames.2.2 _ hmem _ mem_cons_self rfl
    have hsource : g.source numDomain s' = g.source numDomain s := by
      unfold SavingGroup.source
      rw [hcontrols, hsaver _ hg]
    refine wp_mono_ok (g.saveControl_spec _ (s := s') ?_) fun _ s'' hsaved => ?_
    · rw [hcontrols]
      exact htrips g (by simp)
    · refine ⟨hsaved.controls.trans hcontrols, fun g' hg' => ?_, fun n hn => ?_⟩
      · rcases mem_append.mp hg' with hmem | hmem
        · refine (hpre g' hmem).of_savedBy hsaved fun heq => hg ?_
          exact heq ▸ mem_map_of_mem hmem
        · rw [mem_singleton.mp hmem, ← hsource]
          exact hsaved.holds
      · rw [map_append, mem_append, not_or] at hn
        rw [hsaved.saverElsewhere n fun heq => hn.2 (by simp [heq]), hsaver n hn.1]
  unfold wp at hwp
  rwa [hsave] at hwp

end Save

/-! ### The controls after a restore of all IOGroups -/

variable {source : SavingGroup → List Setting}

section AllGroups

variable {outcomes : WriteOutcomes} {groups : List SavingGroup} {s : Saved}

/-- The attempts of a restore: every finite setting once, and again if it has not been written. -/
def attemptsOf (outcomes : WriteOutcomes) (group : String) (settings : List Setting) :
    List (String × Request) :=
  (finiteOf settings ++ unwritten outcomes group 0 (finiteOf settings)).map
    fun ss => (group, ss.request)

theorem Saved.restored_attempts :
    (s.restored outcomes source groups).controls.attempts =
      s.controls.attempts ++ groups.flatMap fun g => attemptsOf outcomes g.name (source g) := by
  induction groups generalizing s with
  | nil => exact (append_nil _).symm
  | cons g groups ih =>
    change (Saved.restored outcomes source groups _).controls.attempts = _
    rw [ih]
    change (s.controls.restored outcomes g.name (source g)).attempts ++ _ = _
    rw [Controls.restored_attempts, flatMap_cons, append_assoc]
    rfl

theorem Saved.restored_value_other {n : String} {t : Request} (hn : n ∉ groups.map (·.name)) :
    (s.restored outcomes source groups).controls.value n t = s.controls.value n t := by
  induction groups generalizing s with
  | nil => rfl
  | cons g groups ih =>
    rw [map_cons, mem_cons, not_or] at hn
    change (Saved.restored outcomes source groups _).controls.value n t = _
    rw [ih hn.2]
    exact Controls.restored_value_other fun h => absurd h hn.1

theorem Saved.restored_value {g : SavingGroup} {ss : Setting}
    (hnames : (groups.map (·.name)).Nodup) (hg : g ∈ groups)
    (hnodup : ((finiteOf (source g)).map request).Nodup) (hss : ss ∈ finiteOf (source g))
    (hwritten : outcomes.isWritten g.name 0 ss = true ∨ outcomes.isWritten g.name 1 ss = true) :
    (s.restored outcomes source groups).controls.value g.name ss.request = ss.setting := by
  induction groups generalizing s with
  | nil => cases hg
  | cons first groups ih =>
    rw [map_cons, nodup_cons] at hnames
    change (Saved.restored outcomes source groups _).controls.value g.name ss.request = _
    rcases mem_cons.mp hg with rfl | hmem
    · rw [Saved.restored_value_other hnames.1]
      exact Controls.restored_value hnodup hss hwritten
    · exact ih hnames.2 hmem

end AllGroups

/-- Controls are written later. -/
def Saved.write (later : List (String × Request × Double)) (s : Saved) : Saved :=
  ⟨later.foldl (fun w e => w.set e.1 e.2.1 e.2.2) s.controls, s.controlSaver, s.files⟩

/-! ### Undoing -/

section Undoing

variable {json11 : Json11} {numDomain : ℤ → ℕ} {answers : Answers} {outcomes : WriteOutcomes}
  {groups : List SavingGroup} {saveDir : String}

/-- The settings that are to be saved: none of an IOGroup that does not save. -/
def SavingGroup.saved (numDomain : ℤ → ℕ) (w : Controls) (g : SavingGroup) : List Setting :=
  match g.keeps with
  | .nothing => []
  | _ => g.settings numDomain w

/-- What the restore `m`, run in the state, is meant to do for the controls as they were `before`:
each finite one is attempted, and again if it has not been written; it has its value from before if
one of its attempts writes it; and the restore raises just when a control is not written, with the
errors of all IOGroups. -/
structure Undone (numDomain : ℤ → ℕ) (outcomes : WriteOutcomes) (groups : List SavingGroup)
    (before : Controls) (m : EStateM Exception Saved Unit) (s : Saved) : Prop where
  attempted : ∃ made, (final m s).controls.attempts = s.controls.attempts ++ made ∧
    made.Perm (groups.flatMap fun g => attemptsOf outcomes g.name (g.saved numDomain before))
  held : ∀ g ∈ groups, ∀ ss ∈ finiteOf (g.saved numDomain before),
    outcomes.isWritten g.name 0 ss = true ∨ outcomes.isWritten g.name 1 ss = true →
    ((final m s).controls.value g.name ss.request).eq ss.setting = true
  raises_iff : (∃ e s', m s = .error e s') ↔
    ∃ g ∈ groups, ∃ ss ∈ finiteOf (g.saved numDomain before),
      outcomes.isWritten g.name 0 ss = false ∧ outcomes.isWritten g.name 1 ss = false
  error : ∀ e s', m s = .error e s' →
    e.what = "PlatformIOImp::restore_control(): Errors occurred during restore: " ++
      "; ".intercalate (errors outcomes (·.saved numDomain before) groups)

/-- The finite settings are of the same controls and have the same values. -/
structure Agree (a b : List Setting) : Prop where
  requests : ((finiteOf a).map request).Perm ((finiteOf b).map request)
  values : ∀ x ∈ finiteOf a, ∀ y ∈ finiteOf b, x.request = y.request →
    x.setting.eq y.setting = true

/-- No IOGroup holds settings of an earlier save that differ from the controls. -/
def Saved.SaversAgree (numDomain : ℤ → ℕ) (groups : List SavingGroup) (s : Saved) : Prop :=
  ∀ g ∈ groups, g.keeps = .snapshot → ∀ saver, s.controlSaver g.name = some saver →
    Agree saver.settings (g.settings numDomain s.controls)

variable (g : SavingGroup)

theorem SavingGroup.requests_nodup : (g.requests numDomain).Nodup := by
  unfold requests
  rw [nodup_flatMap]
  refine ⟨fun name _ => ?_, (g.nodup.filter _).imp fun hne => ?_⟩
  · refine nodup_range.map fun i j h => ?_
    simpa using h
  · intro t ht ht'
    obtain ⟨i, -, rfl⟩ := mem_map.mp ht
    obtain ⟨j, -, heq⟩ := mem_map.mp ht'
    exact hne (congrArg Request.name heq).symm

theorem SavingGroup.saved_nodup (w : Controls) :
    ((g.saved numDomain w).map request).Nodup := by
  have h : ((g.settings numDomain w).map request) = g.requests numDomain := by
    unfold settings
    rw [map_map]
    exact map_id _
  unfold saved
  cases g.keeps with
  | nothing => exact nodup_nil
  | file => exact h ▸ g.requests_nodup
  | snapshot => exact h ▸ g.requests_nodup

theorem SavingGroup.finite_nodup (w : Controls) :
    ((finiteOf (g.saved numDomain w)).map request).Nodup :=
  (g.saved_nodup w).sublist (filter_sublist.map _)

theorem map_request_unwritten {group : String} {attempt : ℕ} (settings : List Setting) :
    (unwritten outcomes group attempt settings).map request =
      (settings.map request).filter
        fun t => !decide (outcomes group t attempt = .writes) := by
  rw [filter_map]
  rfl

theorem Agree.attempts {a b : List Setting} (h : Agree a b) (group : String) :
    (attemptsOf outcomes group a).Perm (attemptsOf outcomes group b) := by
  have hmap : ∀ settings, attemptsOf outcomes group settings =
      ((finiteOf settings).map request ++
        (unwritten outcomes group 0 (finiteOf settings)).map request).map
          fun t => (group, t) := by
    intro settings
    unfold attemptsOf
    rw [← map_append, map_map]
    rfl
  rw [hmap, hmap, map_request_unwritten, map_request_unwritten]
  exact (h.requests.append (h.requests.filter _)).map _

theorem Agree.error {a b : List Setting} (h : Agree a b) (g : SavingGroup) :
    g.error outcomes a = g.error outcomes b := by
  have hmap : ∀ settings, (failing outcomes g.name settings).map (·.name) =
      ((((finiteOf settings).map request).filter fun t =>
        !decide (outcomes g.name t 0 = .writes)).filter fun t =>
          !decide (outcomes g.name t 1 = .writes)).map Request.name := by
    intro settings
    rw [← map_request_unwritten, ← map_request_unwritten, map_map]
    rfl
  unfold SavingGroup.error
  rw [hmap, hmap, toFinset_eq_of_perm _ _ (((h.requests.filter _).filter _).map _)]

theorem mem_failing {group : String} {ss : Setting} :
    ss ∈ failing outcomes group settings ↔ ss ∈ finiteOf settings ∧
      outcomes.isWritten group 0 ss = false ∧ outcomes.isWritten group 1 ss = false := by
  unfold failing unwritten
  rw [mem_filter, mem_filter, and_assoc, Bool.not_eq_true', Bool.not_eq_true']

theorem answer_eq_error {e : Option Exception} {ex : Exception} {s s' : Saved} :
    answer e s = .error ex s' ↔ e = some ex ∧ s' = s := by
  cases e with
  | none => simp [answer]
  | some e => simp [answer, eq_comm]

theorem restoreErrors_isSome :
    (∃ e, restoreErrors outcomes source groups = some e) ↔ ∃ g ∈ groups, ∃ ss ∈ finiteOf (source g),
      outcomes.isWritten g.name 0 ss = false ∧ outcomes.isWritten g.name 1 ss = false := by
  have hsome : (∃ e, restoreErrors outcomes source groups = some e) ↔
      errors outcomes source groups ≠ [] := by
    unfold restoreErrors
    split_ifs with h <;> simp [h]
  have hmem : ∀ g : SavingGroup, g.error outcomes (source g) ≠ none ↔
      ∃ ss ∈ finiteOf (source g), outcomes.isWritten g.name 0 ss = false ∧
        outcomes.isWritten g.name 1 ss = false := by
    intro g
    rw [Ne, SavingGroup.error_eq_none, eq_nil_iff_forall_not_mem]
    push Not
    exact exists_congr fun ss => mem_failing
  rw [hsome, errors, Ne, map_eq_nil_iff, filterMap_eq_nil_iff]
  push Not
  exact exists_congr fun g => and_congr_right fun _ => hmem g

/-- A restore of settings that agree with the saved ones does what it is meant to do. -/
theorem undone_of_agree {before : Controls} {s : Saved}
    (hnames : (groups.map (·.name)).Nodup)
    (hholds : ∀ g ∈ groups, g.Holds json11 (g.savePath saveDir) (source g) s)
    (hagree : ∀ g ∈ groups, Agree (source g) (g.saved numDomain before)) :
    Undone numDomain outcomes groups before (restoreControl json11 outcomes groups saveDir) s := by
  have heq : restoreControl json11 outcomes groups saveDir s = _ := restoreControl_eq hholds
  have hfinal : final (restoreControl json11 outcomes groups saveDir) s =
      s.restored outcomes source groups := by
    unfold final
    rw [heq]
    cases restoreErrors outcomes source groups <;> rfl
  have herror : ∀ g ∈ groups, g.error outcomes (source g) =
      g.error outcomes (g.saved numDomain before) := fun g hg => (hagree g hg).error g
  have herrors : errors outcomes source groups =
      errors outcomes (·.saved numDomain before) groups := by
    unfold errors
    rw [filterMap_congr herror]
  refine ⟨⟨_, by rw [hfinal, Saved.restored_attempts], ?_⟩, fun g hg ss hss hwritten => ?_, ?_, ?_⟩
  · exact List.Perm.flatMap_left _ fun g hg => (hagree g hg).attempts g.name
  · obtain ⟨x, hx, hreq⟩ := mem_map.mp
      ((hagree g hg).requests.mem_iff.mpr (mem_map_of_mem hss))
    have hsame : ∀ n, outcomes.isWritten g.name n x = outcomes.isWritten g.name n ss := by
      intro n
      unfold WriteOutcomes.isWritten
      rw [hreq]
    have hnodup : ((finiteOf (source g)).map request).Nodup :=
      (hagree g hg).requests.nodup_iff.mpr (g.finite_nodup before)
    rw [hfinal, ← hreq, Saved.restored_value hnames hg hnodup hx (by rwa [hsame, hsame])]
    exact (hagree g hg).values x hx ss hss hreq
  · have hsame : restoreErrors outcomes source groups =
        restoreErrors outcomes (·.saved numDomain before) groups := by
      unfold restoreErrors
      rw [herrors]
    rw [heq, hsame]
    simp only [answer_eq_error, exists_and_left, exists_eq, and_true]
    exact restoreErrors_isSome
  · intro e s' he
    rw [heq, answer_eq_error, restoreErrors] at he
    obtain ⟨he, -⟩ := he
    split_ifs at he
    rw [← Option.some.inj he, herrors]

theorem filter_attempts {g : SavingGroup}
    (hnames : (groups.map (·.name)).Nodup) (hg : g ∈ groups) :
    (groups.flatMap fun g => (finiteOf (source g)).map fun ss => (g.name, ss.request)).filter
        (fun p => decide (p.1 = g.name)) =
      (finiteOf (source g)).map fun ss => (g.name, ss.request) := by
  rw [List.filter_flatMap]
  induction groups with
  | nil => cases hg
  | cons first groups ih =>
    rw [map_cons, nodup_cons] at hnames
    rw [flatMap_cons]
    rcases mem_cons.mp hg with rfl | hmem
    · have hrest : (groups.flatMap fun g' => List.filter (fun p => decide (p.1 = g.name))
          ((finiteOf (source g')).map fun ss => (g'.name, ss.request))) = [] := by
        rw [flatMap_eq_nil_iff]
        intro g' hg'
        rw [filter_eq_nil_iff]
        intro p hp hname
        obtain ⟨ss, -, rfl⟩ := mem_map.mp hp
        exact hnames.1 (of_decide_eq_true hname ▸ mem_map_of_mem hg')
      rw [hrest, append_nil, filter_eq_self]
      intro p hp
      obtain ⟨ss, -, rfl⟩ := mem_map.mp hp
      exact decide_eq_true rfl
    · have hfirst : ((finiteOf (source first)).map fun ss => (first.name, ss.request)).filter
          (fun p => decide (p.1 = g.name)) = [] := by
        rw [filter_eq_nil_iff]
        intro p hp hname
        obtain ⟨ss, -, rfl⟩ := mem_map.mp hp
        have hsame : first.name = g.name := of_decide_eq_true hname
        exact hnames.1 (hsame ▸ mem_map_of_mem hmem)
      rw [hfirst, nil_append]
      exact ih hnames.2 hmem

theorem agree_of_undone {before : Controls} {s : Saved}
    (hnames : (groups.map (·.name)).Nodup)
    (hholds : ∀ g ∈ groups, g.Holds json11 (g.savePath saveDir) (source g) s)
    (hundone : ∀ outcomes, Undone numDomain outcomes groups before
      (restoreControl json11 outcomes groups saveDir) s) :
    ∀ g ∈ groups, Agree (source g) (g.saved numDomain before) := by
  let outcomes : WriteOutcomes := fun _ _ _ => .writes
  have hall : ∀ group settings, attemptsOf outcomes group settings =
      (finiteOf settings).map fun ss => (group, ss.request) := by
    intro group settings
    have hnone : unwritten outcomes group 0 (finiteOf settings) = [] :=
      filter_eq_nil_iff.mpr fun _ _ => Bool.false_ne_true
    rw [attemptsOf, hnone, append_nil]
  have heq : restoreControl json11 outcomes groups saveDir s = _ := restoreControl_eq hholds
  have hfinal : final (restoreControl json11 outcomes groups saveDir) s =
      s.restored outcomes source groups := by
    unfold final
    rw [heq]
    cases restoreErrors outcomes source groups <;> rfl
  obtain ⟨⟨made, hmade, hperm⟩, hheld, -, -⟩ := hundone outcomes
  rw [hfinal, Saved.restored_attempts, append_cancel_left_eq] at hmade
  rw [← hmade] at hperm
  intro g hg
  have hrequests : ((finiteOf (source g)).map request).Perm
      ((finiteOf (g.saved numDomain before)).map request) := by
    have h := (hperm.filter fun p => decide (p.1 = g.name)).map Prod.snd
    simp only [hall] at h
    rw [filter_attempts hnames hg, filter_attempts hnames hg, map_map, map_map] at h
    exact h
  refine ⟨hrequests, fun x hx y hy hreq => ?_⟩
  have hnodup := hrequests.nodup_iff.mpr (g.finite_nodup before)
  have h := hheld g hg y hy (.inl rfl)
  rwa [hfinal, ← hreq, Saved.restored_value hnames hg hnodup hx (.inl rfl)] at h

theorem Agree.refl
    (hnodup : ((finiteOf settings).map request).Nodup) : Agree settings settings := by
  refine ⟨.refl _, fun x hx y hy hreq => ?_⟩
  rw [inj_on_of_nodup_map hnodup hx hy hreq]
  exact Double.eq_self (mem_filter.mp hy).2

theorem Agree.of_text
    (hnodup : ((finiteOf settings).map request).Nodup) :
    Agree ((finiteOf settings).map Setting.unsigned) settings := by
  have hfinite : finiteOf ((finiteOf settings).map Setting.unsigned) =
      (finiteOf settings).map Setting.unsigned := by
    rw [finiteOf_unsigned]
    congr 1
    exact filter_eq_self.mpr fun ss hss => (mem_filter.mp hss).2
  refine ⟨?_, fun x hx y hy hreq => ?_⟩
  · rw [hfinite, map_map]
    exact .refl _
  · rw [hfinite] at hx
    obtain ⟨ss, hss, rfl⟩ := mem_map.mp hx
    rw [inj_on_of_nodup_map hnodup hss hy hreq]
    exact Double.eq_unsigned (mem_filter.mp hy).2

theorem source_agree {s : Saved} (hagree : s.SaversAgree numDomain groups) {g : SavingGroup}
    (hg : g ∈ groups) : Agree (g.source numDomain s) (g.saved numDomain s.controls) := by
  have hnodup : ((finiteOf (g.saved numDomain s.controls)).map request).Nodup :=
    g.finite_nodup s.controls
  have hg' := hagree g hg
  unfold SavingGroup.saved at *
  unfold SavingGroup.source
  cases hkeeps : g.keeps with
  | nothing => exact .refl nodup_nil
  | file =>
    rw [hkeeps] at hnodup
    exact .of_text hnodup
  | snapshot =>
    rw [hkeeps] at hnodup
    cases hsaver : s.controlSaver g.name with
    | none => exact .refl hnodup
    | some saver => exact hg' hkeeps saver hsaver

/-- The IOGroups restore what has been saved, whatever is written later and whatever the attempts
do, just when none of them holds settings of an earlier save that differ from the controls. -/
theorem undone_iff {s s₁ : Saved} (later : List (String × Request × Double))
    (hnames : (groups.map (·.name)).Nodup)
    (htrips : ∀ g ∈ groups, g.keeps = .file → json11.RoundTrips (g.settings numDomain s.controls))
    (hsave : saveControl json11 numDomain answers groups saveDir s = .ok () s₁) :
    (∀ outcomes, Undone numDomain outcomes groups s.controls
        (restoreControl json11 outcomes groups saveDir) (s₁.write later)) ↔
      s.SaversAgree numDomain groups := by
  have hsaved := saveControl_holds hnames htrips hsave
  have hholds : ∀ g ∈ groups, g.Holds json11 (g.savePath saveDir) (g.source numDomain s)
      (s₁.write later) := hsaved.holds
  constructor
  · intro hundone g hg hkeeps saver hsaver
    have h := agree_of_undone hnames hholds hundone g hg
    unfold SavingGroup.source SavingGroup.saved at h
    rw [hkeeps, hsaver] at h
    exact h
  · intro hagree outcomes
    exact undone_of_agree hnames hholds fun g hg => source_agree hagree hg

end Undoing

/-- One board. -/
def oneBoard : ℤ → ℕ := fun _ => 1

/-- An IOGroup that keeps its `m_control_saver`, with one control. -/
def sysfsGroup : SavingGroup where
  name := "SYSFS"
  controlNames := ["SYSFS::LIMIT"]
  controlDomainType _ := 0
  keeps := .snapshot
  nodup := nodup_singleton _

/-- The control is saved with 1 and set to 5, saved again and set to 7: the restore sets it to 1. -/
theorem old_snapshot :
    let json11 : Json11 := ⟨fun _ => "[]", fun _ => .ok (.array [])⟩
    let save := fun saveDir => saveControl json11 oneBoard {} [sysfsGroup] saveDir
    let write := fun (x : ℚ) => Saved.write [("SYSFS", ⟨"SYSFS::LIMIT", 0, 0⟩, .num x)]
    let s := write 5 (final (save "first") { controls := { value := fun _ _ => .num 1 } })
    returns (save "second") s = true ∧
      ¬ Undone oneBoard (fun _ _ _ => .writes) [sysfsGroup] s.controls
        (restoreControl json11 (fun _ _ _ => .writes) [sysfsGroup] "second")
        (write 7 (final (save "second") s)) := by
  intro json11 save write s
  refine ⟨by decide +kernel, fun h => ?_⟩
  have hheld := h.held sysfsGroup (by simp) ⟨"SYSFS::LIMIT", 0, 0, .num 5⟩ (by decide +kernel)
    (.inl rfl)
  revert hheld
  decide +kernel

/-- An IOGroup with a file and one control. -/
def msrGroup : SavingGroup where
  name := "MSR"
  controlNames := ["MSR::PERF_CTL:FREQ"]
  controlDomainType _ := 0
  keeps := .file
  nodup := nodup_singleton _

/-- A control that is saved in a file, and restored in the second attempt. -/
theorem undone_iff_msr :
    let text := "[\x7b\"domain_idx\": 0, \"domain_type\": 0, \"name\": \"MSR::PERF_CTL:FREQ\", " ++
      "\"setting\": 2400000000\x7d]"
    let json := settingsJson [⟨"MSR::PERF_CTL:FREQ", 0, 0, .num 2400000000⟩]
    let json11 : Json11 := ⟨fun _ => text, fun _ => .ok json⟩
    let s : Saved := { controls := { value := fun _ _ => .num 2400000000 } }
    let outcomes : WriteOutcomes := fun _ _ attempt => if attempt = 0 then .raises none else .writes
    Undone oneBoard outcomes [msrGroup] s.controls
      (restoreControl json11 outcomes [msrGroup] "/run")
      ((final (saveControl json11 oneBoard {} [msrGroup] "/run") s).write
        [("MSR", ⟨"MSR::PERF_CTL:FREQ", 0, 0⟩, .num 1000000000)]) := by
  intro text json json11 s outcomes
  have hsave : saveControl json11 oneBoard {} [msrGroup] "/run" s =
      .ok () (final (saveControl json11 oneBoard {} [msrGroup] "/run") s) :=
    eq_ok_of_returns (by decide +kernel)
  refine (undone_iff _ (by simp) ?_ hsave).mpr ?_ outcomes
  · rintro g hg -
    rw [mem_singleton.mp hg]
    rfl
  · rintro g hg hkeeps
    rw [mem_singleton.mp hg] at hkeeps
    cases hkeeps

end Geopm.Pio
