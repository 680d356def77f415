import Geopm.Lib.Lts
import Geopm.Lib.Prog

/-!
# The prologue and the epilogue of a job

`geopm_power_limit_compute.py` is run on a node before and after each job. A prologue that is asked for
a power limit saves the settings of four controls to a file before it writes its own, and both hooks
restore what they find there.

* `doPowerLimitPrologue`, `doPowerLimitEpilogue`, `hookMain` : the hooks, in which every operation on a
  control or on the file may fail, or be the one before which the node crashes;
* `Node.Recoverable` : the settings of the node are in force, or they are in the file;
* `CutShort` : the file is left open, with only a part of the settings written to it;
* `along_givesBack_iff` : the runs in which the node gets its settings back.
-/

namespace Geopm.PowerLimitHook

open Prog Lts

variable {V : Type}

/-- The fields of `MSR::PLATFORM_POWER_LIMIT` that the hooks control. -/
inductive Control
  | timeWindow
  | clampEnable
  | powerLimit
  | limitEnable
  deriving DecidableEq

/-- The order of `_controls`. -/
def controls : List Control := [.timeWindow, .clampEnable, .powerLimit, .limitEnable]

/-- The settings of the controls, in the order in which they are written. -/
def dump (settings : Control → V) : List (Control × V) := controls.map fun c => (c, settings c)

/-- The text of a file: a list as JSON, or only a part of such a text, which is not JSON. -/
inductive Content (V : Type)
  | part
  | whole (controls : List (Control × V))

/-- What may happen at an operation. -/
inductive Fault
  | none
  | fail
  | crash
  deriving DecidableEq

/-- A node, with the saved-controls file and what is going to happen at the next operations. -/
structure Node (V : Type) where
  settings : Control → V
  file : Option (Content V)
  faults : List Fault := []

/-- What ends a hook: an exception, `event.accept` or `event.reject`, or a crash. -/
inductive Raised
  | runtimeError
  | osError
  | jsonDecodeError
  | systemExit (accepted : Bool)
  | crash

abbrev Py (V : Type) := EStateM Raised (Node V)

/-- What happens at the next operation. -/
def popFault : Py V Fault := do
  let node ← get
  match node.faults with
  | [] => pure .none
  | fault :: faults =>
    set { node with faults := faults }
    pure fault

/-- An operation that raises `e` when it fails. -/
def operation {α : Type} (e : Raised) (m : Py V α) : Py V α := do
  match ← popFault with
  | .none => m
  | .fail => throw e
  | .crash => throw .crash

/-- `event.accept`. -/
def accept {α : Type} : Py V α := throw (.systemExit true)

def rejectEvent {α : Type} : Py V α := throw (.systemExit false)

/-- `pio.read_signal`. -/
def readSignal (c : Control) : Py V V :=
  operation .runtimeError do pure ((← get).settings c)

/-- `pio.write_control`. -/
def writeControl (c : Control) (setting : V) : Py V Unit :=
  operation .runtimeError do
    modify fun node => { node with settings := Function.update node.settings c setting }

def readControls (cs : List Control) : Py V (List (Control × V)) :=
  tryCatch (cs.mapM fun c => do pure (c, ← readSignal c)) fun
    | .runtimeError => rejectEvent
    | e => throw e

def writeControls (cs : List (Control × V)) : Py V Unit :=
  tryCatch (cs.forM fun c => writeControl c.1 c.2) fun
    | .runtimeError => rejectEvent
    | e => throw e

/-- `save_controls_to_file`: the file is emptied when it is opened. -/
def saveControlsToFile (cs : List (Control × V)) : Py V Unit :=
  tryCatch
    (do
      operation .osError (modify fun node => { node with file := some .part })
      operation .osError (modify fun node => { node with file := some (.whole cs) }))
    fun
    | .osError => rejectEvent
    | e => throw e

/-- `json.loads`. -/
def loads : Content V → Py V (List (Control × V))
  | .part => throw .jsonDecodeError
  | .whole cs => pure cs

def restoreControlsFromFile : Py V Unit := do
  let text ← tryCatch
    (operation .osError do
      match (← get).file with
      | some text => pure text
      | none => throw .osError)
    fun
    | .osError => rejectEvent
    | e => throw e
  tryCatch
    (do
      let cs ← loads text
      if cs.isEmpty then rejectEvent
      writeControls cs)
    fun
    | .jsonDecodeError => rejectEvent
    | e => throw e
  operation .osError (modify fun node => { node with file := none })

/-- What the resources of a job ask for: no limit, a limit for the node, or something that the hook
does not understand. -/
inductive Request (V : Type)
  | none
  | limit (powerLimit : V)
  | invalid

/-- The settings of `_controls` for a limit. -/
structure Limiting (V : Type) where
  timeWindow : V
  clampEnable : V
  limitEnable : V

def Limiting.settings (limiting : Limiting V) (powerLimit : V) : Control → V
  | .timeWindow => limiting.timeWindow
  | .clampEnable => limiting.clampEnable
  | .powerLimit => powerLimit
  | .limitEnable => limiting.limitEnable

def doPowerLimitPrologue (limiting : Limiting V) (request : Request V) : Py V Unit := do
  if (← get).file.isSome then restoreControlsFromFile
  match request with
  | .invalid => rejectEvent
  | .none => accept
  | .limit powerLimit =>
    let currentSettings ← readControls controls
    -- `secure_make_dirs`
    operation .osError (pure ())
    saveControlsToFile currentSettings
    writeControls (dump (limiting.settings powerLimit))
    accept

def doPowerLimitEpilogue : Py V Unit := do
  if (← get).file.isSome then restoreControlsFromFile
  accept

inductive Hook (V : Type)
  | prologue (request : Request V)
  | epilogue

/-- `hook_main` : all exceptions reject the event. -/
def hookMain (limiting : Limiting V) (hook : Hook V) : Py V Unit :=
  tryCatch
    (match hook with
    | .prologue request => doPowerLimitPrologue limiting request
    | .epilogue => doPowerLimitEpilogue)
    fun
    | .systemExit accepted => throw (.systemExit accepted)
    | .crash => throw .crash
    | _ => rejectEvent

/-- An event, and what happens at its operations. -/
structure Event (V : Type) where
  hook : Hook V
  faults : List Fault := []

section Run

variable (limiting : Limiting V)

/-- The node after an event. -/
def Node.next (node : Node V) (event : Event V) : Node V :=
  final (hookMain limiting event.hook) { node with faults := event.faults }

/-- The event is accepted. -/
def Accepts (node : Node V) (event : Event V) : Prop :=
  ∃ node', hookMain limiting event.hook { node with faults := event.faults } =
    .error (.systemExit true) node'

/-- Without any further failure, no prologue is accepted any more. -/
def Stuck (node : Node V) : Prop :=
  ∀ events : List (Event V), (∀ event ∈ events, event.faults = []) →
    ∀ request, ¬ Accepts limiting (events.foldl (Node.next limiting) node) ⟨.prologue request, []⟩

/-- The settings of the node are back when an epilogue is accepted, no others are ever saved, and
prologues can be accepted again. -/
def GivesBack (settings : Control → V) (node : Node V) (event : Event V) : Prop :=
  (event.hook = .epilogue → Accepts limiting node event →
      (node.next limiting event).settings = settings ∧ (node.next limiting event).file = none) ∧
    (∀ cs, (node.next limiting event).file = some (.whole cs) → cs = dump settings) ∧
    ¬ Stuck limiting (node.next limiting event)

end Run

/-- The next `n` operations succeed. -/
def Clean (n : ℕ) (faults : List Fault) : Prop := ∀ fault ∈ faults.take n, fault = .none

/-- A prologue is cut short after it has opened the file: all operations before have succeeded, which
are six to restore what was saved before, four to read the controls, one for the directory and one
to open the file, and the next one does not. -/
def CutShort (node : Node V) (event : Event V) : Prop :=
  (∃ powerLimit, event.hook = .prologue (.limit powerLimit)) ∧
    let before := (if node.file.isSome then 6 else 0) + 6
    Clean before event.faults ∧ ∃ fault ∈ event.faults[before]?, fault ≠ .none

section Lemmas

variable {limiting : Limiting V} {node : Node V} {settings : Control → V} {n : ℕ}
  {faults : List Fault} {cs : List (Control × V)}

/-- The node after `n` operations that have succeeded, but for what they have done. -/
def Node.skip (n : ℕ) (node : Node V) : Node V := { node with faults := node.faults.drop n }

@[simp] theorem skip_settings : (node.skip n).settings = node.settings := rfl

@[simp] theorem skip_file : (node.skip n).file = node.file := rfl

@[simp] theorem skip_faults : (node.skip n).faults = node.faults.drop n := rfl

@[simp] theorem clean_zero : Clean 0 faults := nofun

@[simp] theorem clean_nil : Clean n [] := by simp [Clean]

theorem clean_succ : Clean (n + 1) faults ↔ faults.head?.getD .none = .none ∧ Clean n faults.tail := by
  cases faults <;> simp [Clean]

theorem clean_add {m : ℕ} : Clean (m + n) faults ↔ Clean m faults ∧ Clean n (faults.drop m) := by
  induction m generalizing faults with
  | zero => simp
  | succ m ih =>
    rw [Nat.succ_add, clean_succ, clean_succ, ih, and_assoc, List.drop_tail]

theorem clean_one : Clean 1 faults ↔ faults.head?.getD .none = .none := by
  simp [clean_succ]

/-- The operation after `n` others does not succeed. -/
theorem not_clean_succ (h : Clean n faults) :
    ¬ Clean (n + 1) faults ↔ ∃ fault ∈ faults[n]?, fault ≠ .none := by
  rw [clean_add, clean_succ, List.head?_drop]
  cases faults[n]? <;> simp [h]

/-- An exception that does not accept the event. -/
def Ends (e : Raised) : Prop := e ≠ .systemExit true

/-! ### Operations -/

section Operation

variable {α : Type} {e : Raised} {m : Py V α} {Q : α → Node V → Prop} {E : Raised → Node V → Prop}

theorem wp_operation (h : node.faults.head?.getD .none = .none → wp m Q E (node.skip 1))
    (hfail : node.faults.head?.getD .none ≠ .none → E e (node.skip 1) ∧ E .crash (node.skip 1)) :
    wp (operation e m) Q E node := by
  obtain ⟨settings, file, faults⟩ := node
  cases faults with
  | nil => exact h rfl
  | cons fault faults =>
    cases fault with
    | none => exact h rfl
    | fail => exact (hfail (by simp)).1
    | crash => exact (hfail (by simp)).2

end Operation

/-- **The controls are read**, unless an operation fails. -/
theorem wp_readControls (cs : List Control) (node : Node V) :
    wp (readControls cs)
      (fun a node' => Clean cs.length node.faults ∧ a = cs.map (fun c => (c, node.settings c)) ∧
        node' = node.skip cs.length)
      (fun e node' => ¬ Clean cs.length node.faults ∧ Ends e ∧ node'.settings = node.settings ∧
        node'.file = node.file) node := by
  have hread : wp (cs.mapM fun c => do pure (c, ← readSignal c))
      (fun a node' => Clean cs.length node.faults ∧ a = cs.map (fun c => (c, node.settings c)) ∧
        node' = node.skip cs.length)
      (fun e node' => ¬ Clean cs.length node.faults ∧ (e = .runtimeError ∨ e = .crash) ∧
        node'.settings = node.settings ∧ node'.file = node.file) node := by
    induction cs generalizing node with
    | nil => exact ⟨clean_zero, rfl, rfl⟩
    | cons c cs ih =>
      rw [List.mapM_cons]
      simp only [wp_bind, List.length_cons, clean_succ]
      refine wp_operation (fun hnone => ?_) fun hfault => ?_
      · rw [wp_bind, wp_get, wp_pure, wp_pure, wp_bind]
        refine wp_mono (ih (node.skip 1)) ?_ ?_
        · rintro a node' ⟨hclean, rfl, rfl⟩
          rw [wp_pure]
          refine ⟨⟨hnone, by simpa using hclean⟩, rfl, ?_⟩
          simp [Node.skip]
        · rintro e node' ⟨hclean, he, hsettings, hfile⟩
          exact ⟨fun h => hclean (by simpa using h.2), he, hsettings, hfile⟩
      · exact ⟨⟨fun h => hfault h.1, .inl rfl, rfl, rfl⟩, fun h => hfault h.1, .inr rfl, rfl, rfl⟩
  rw [readControls, wp_tryCatch]
  refine wp_mono hread (fun _ _ h => h) ?_
  rintro e node' ⟨hclean, rfl | rfl, hsettings, hfile⟩
  · exact ⟨hclean, by simp [Ends], hsettings, hfile⟩
  · exact ⟨hclean, by simp [Ends], hsettings, hfile⟩

/-- **The controls are written**, unless an operation fails. -/
theorem wp_writeControls (cs : List (Control × V)) (node : Node V) :
    wp (writeControls cs)
      (fun _ node' => Clean cs.length node.faults ∧ node' = { node.skip cs.length with
        settings := cs.foldl (fun s c => Function.update s c.1 c.2) node.settings })
      (fun e node' => ¬ Clean cs.length node.faults ∧ Ends e ∧ node'.file = node.file) node := by
  have hwrite : wp (cs.forM fun c => writeControl c.1 c.2)
      (fun _ node' => Clean cs.length node.faults ∧ node' = { node.skip cs.length with
        settings := cs.foldl (fun s c => Function.update s c.1 c.2) node.settings })
      (fun e node' => ¬ Clean cs.length node.faults ∧ (e = .runtimeError ∨ e = .crash) ∧
        node'.file = node.file) node := by
    induction cs generalizing node with
    | nil => exact ⟨clean_zero, rfl⟩
    | cons c cs ih =>
      change wp (writeControl c.1 c.2 >>= fun _ => cs.forM fun c => writeControl c.1 c.2) _ _ _
      simp only [wp_bind, List.length_cons, clean_succ]
      refine wp_operation (fun hnone => ?_) fun hfault => ?_
      · rw [wp_modify]
        refine wp_mono (ih _) ?_ ?_
        · rintro _ node' ⟨hclean, rfl⟩
          refine ⟨⟨hnone, by simpa using hclean⟩, ?_⟩
          simp [Node.skip]
        · rintro e node' ⟨hclean, he, hfile⟩
          exact ⟨fun h => hclean (by simpa using h.2), he, hfile⟩
      · exact ⟨⟨fun h => hfault h.1, .inl rfl, rfl⟩, fun h => hfault h.1, .inr rfl, rfl⟩
  rw [writeControls, wp_tryCatch]
  refine wp_mono hwrite (fun _ _ h => h) ?_
  rintro e node' ⟨hclean, rfl | rfl, hfile⟩
  · exact ⟨hclean, by simp [Ends], hfile⟩
  · exact ⟨hclean, by simp [Ends], hfile⟩

theorem foldl_dump (settings before : Control → V) :
    (dump settings).foldl (fun s c => Function.update s c.1 c.2) before = settings := by
  funext c
  cases c <;> simp [dump, controls]

/-- **The settings are saved**, unless an operation fails: then the file is as it was, or it has been
opened. -/
theorem wp_saveControlsToFile (cs : List (Control × V)) (node : Node V) :
    wp (saveControlsToFile cs)
      (fun _ node' => Clean 2 node.faults ∧ node' = { node.skip 2 with file := some (.whole cs) })
      (fun e node' => Ends e ∧ node'.settings = node.settings ∧
        (¬ Clean 1 node.faults ∧ node'.file = node.file ∨
          Clean 1 node.faults ∧ ¬ Clean 2 node.faults ∧ node'.file = some .part)) node := by
  rw [saveControlsToFile, wp_tryCatch, wp_bind]
  have htwo : Clean 2 node.faults ↔ Clean 1 node.faults ∧ Clean 1 (node.faults.drop 1) := by
    rw [show (2 : ℕ) = 1 + 1 from rfl, clean_add]
  refine wp_operation (fun hnone => ?_) fun hfault => ?_
  · rw [← clean_one] at hnone
    rw [wp_modify]
    refine wp_operation (fun hnone' => ?_) fun hfault' => ?_
    · rw [wp_modify]
      refine ⟨htwo.mpr ⟨hnone, clean_one.mpr hnone'⟩, ?_⟩
      simp [Node.skip]
    · have hclean : ¬ Clean 2 node.faults := fun h => hfault' (clean_one.mp (htwo.mp h).2)
      exact ⟨⟨nofun, rfl, .inr ⟨hnone, hclean, rfl⟩⟩, nofun, rfl, .inr ⟨hnone, hclean, rfl⟩⟩
  · have hclean : ¬ Clean 1 node.faults := fun h => hfault (clean_one.mp h)
    exact ⟨⟨nofun, rfl, .inl ⟨hclean, rfl⟩⟩, nofun, rfl, .inl ⟨hclean, rfl⟩⟩

/-- **The settings are restored**, unless an operation fails: then the file stays. -/
theorem wp_restoreControlsFromFile (hfile : node.file = some (.whole (dump settings))) :
    wp restoreControlsFromFile
      (fun _ node' => Clean 6 node.faults ∧
        node' = { node.skip 6 with settings := settings, file := none })
      (fun e node' => ¬ Clean 6 node.faults ∧ Ends e ∧ node'.file = node.file) node := by
  have hsix : Clean 6 node.faults ↔ Clean 1 node.faults ∧ Clean 4 (node.faults.drop 1) ∧
      Clean 1 (node.faults.drop 5) := by
    rw [show (6 : ℕ) = 1 + (4 + 1) from rfl, clean_add, clean_add, List.drop_drop]
  rw [restoreControlsFromFile, wp_bind, wp_tryCatch]
  refine wp_operation (fun hone => ?_) fun hfault => ?_
  · rw [wp_bind, wp_get, skip_file, hfile]
    dsimp only
    rw [wp_pure, wp_bind, wp_tryCatch]
    dsimp only [loads]
    rw [pure_bind, if_neg (by simp [dump, controls])]
    refine wp_mono (wp_writeControls (dump settings) (node.skip 1)) ?_ ?_
    · rintro _ node' ⟨hfour, rfl⟩
      refine wp_operation (fun hlast => ?_) fun hfault => ?_
      · rw [wp_modify]
        refine ⟨hsix.mpr ⟨clean_one.mpr hone, hfour, ?_⟩, ?_⟩
        · exact clean_one.mpr (by simpa [dump, controls] using hlast)
        · simp only [skip_settings, foldl_dump]
          simp [Node.skip, dump, controls]
      · have hclean : ¬ Clean 6 node.faults := fun h =>
          hfault (by simpa [dump, controls] using clean_one.mp (hsix.mp h).2.2)
        exact ⟨⟨hclean, by simp [Ends], hfile⟩, hclean, nofun, hfile⟩
    · rintro e node' ⟨hfour, he, hfile'⟩
      have hclean : ¬ Clean 6 node.faults := fun h => hfour (hsix.mp h).2.1
      cases e with
      | jsonDecodeError => exact ⟨hclean, nofun, hfile'.trans hfile⟩
      | runtimeError => exact ⟨hclean, he, hfile'.trans hfile⟩
      | osError => exact ⟨hclean, he, hfile'.trans hfile⟩
      | systemExit accepted => exact ⟨hclean, he, hfile'.trans hfile⟩
      | crash => exact ⟨hclean, he, hfile'.trans hfile⟩
  · have hclean : ¬ Clean 6 node.faults := fun h => hfault (clean_one.mp (hsix.mp h).1)
    exact ⟨⟨hclean, nofun, rfl⟩, hclean, nofun, rfl⟩

theorem wp_restoreControlsFromFile_part (hfile : node.file = some .part) :
    wp restoreControlsFromFile (fun _ _ => False)
      (fun e node' => Ends e ∧ node'.settings = node.settings ∧ node'.file = node.file) node := by
  rw [restoreControlsFromFile, wp_bind, wp_tryCatch]
  refine wp_operation (fun hone => ?_) fun hfault => ?_
  · rw [wp_bind, wp_get, skip_file, hfile]
    exact ⟨nofun, rfl, hfile⟩
  · exact ⟨⟨nofun, rfl, rfl⟩, nofun, rfl, rfl⟩

/-! ### Hooks -/

/-- The settings of the node are in force, or they are in the file. -/
def Node.Recoverable (settings : Control → V) (node : Node V) : Prop :=
  node.file = none ∧ node.settings = settings ∨ node.file = some (.whole (dump settings))

/-- **What both hooks begin with** leaves the settings of the node in force and no file, unless an
operation fails. -/
theorem wp_restore_then {α : Type} {k : Py V α} {Q : α → Node V → Prop} {E : Raised → Node V → Prop}
    (h : node.Recoverable settings) (hn : n = if node.file.isSome then 6 else 0)
    (hk : Clean n node.faults →
      wp k Q E { node.skip n with settings := settings, file := none })
    (hE : ∀ e node', ¬ Clean n node.faults → Ends e → node'.Recoverable settings → E e node') :
    wp (do
      if (← get).file.isSome then restoreControlsFromFile
      k) Q E node := by
  rw [wp_bind, wp_get]
  obtain ⟨hfile, hsettings⟩ | hfile := h
  · rw [hfile] at hn ⊢
    subst hn
    have hsame : { node.skip 0 with settings := settings, file := none } = node := by
      rw [← hfile, ← hsettings]
      rfl
    exact hsame ▸ hk clean_zero
  · rw [hfile] at hn ⊢
    subst hn
    change wp (restoreControlsFromFile >>= fun _ => k) Q E node
    rw [wp_bind]
    refine wp_mono (wp_restoreControlsFromFile hfile) ?_ ?_
    · rintro _ node' ⟨hclean, rfl⟩
      exact hk hclean
    · rintro e node' ⟨hclean, he, hfile'⟩
      exact hE e node' hclean he (.inr (hfile'.trans hfile))

theorem wp_doPowerLimitEpilogue (h : node.Recoverable settings) :
    wp doPowerLimitEpilogue (fun _ _ => False)
      (fun e node' => node'.Recoverable settings ∧
        (e = .systemExit true → node'.settings = settings ∧ node'.file = none)) node := by
  refine wp_restore_then h rfl (fun _ => ?_) fun e node' _ he hnode' => ?_
  · exact ⟨.inl ⟨rfl, rfl⟩, fun _ => ⟨rfl, rfl⟩⟩
  · exact ⟨hnode', fun h => absurd h he⟩

/-- What a prologue with a limit does once the settings of the node are in force. -/
theorem wp_limit (powerLimit : V) (hfile : node.file = none) (hsettings : node.settings = settings) :
    wp (do
      let currentSettings ← readControls controls
      operation .osError (pure ())
      saveControlsToFile currentSettings
      writeControls (dump (limiting.settings powerLimit))
      accept : Py V Unit) (fun _ _ => False)
      (fun _ node' =>
        (Clean 6 node.faults ∧ ¬ Clean 7 node.faults) ∧ node'.file = some .part ∨
          ¬ (Clean 6 node.faults ∧ ¬ Clean 7 node.faults) ∧ node'.Recoverable settings) node := by
  have hsix : Clean 6 node.faults ↔ Clean 4 node.faults ∧ Clean 1 (node.faults.drop 4) ∧
      Clean 1 (node.faults.drop 5) := by
    rw [show (6 : ℕ) = 4 + (1 + 1) from rfl, clean_add, clean_add, List.drop_drop]
  have hseven : Clean 7 node.faults ↔ Clean 4 node.faults ∧ Clean 1 (node.faults.drop 4) ∧
      Clean 2 (node.faults.drop 5) := by
    rw [show (7 : ℕ) = 4 + (1 + 2) from rfl, clean_add, clean_add, List.drop_drop]
  rw [wp_bind]
  refine wp_mono (wp_readControls controls node) ?_ ?_
  · rintro _ node' ⟨hfour, rfl, rfl⟩
    rw [wp_bind]
    refine wp_operation (fun hone => ?_) fun hfault => ?_
    · rw [wp_pure, wp_bind]
      rw [← clean_one] at hone
      refine wp_mono (wp_saveControlsToFile _ _) ?_ ?_
      · rintro _ node' ⟨htwo, rfl⟩
        -- the file is whole: whatever happens from here on, it can be restored
        have hclean : Clean 7 node.faults := hseven.mpr ⟨hfour, hone, by simpa [controls] using htwo⟩
        have hsaved : controls.map (fun c => (c, node.settings c)) = dump settings := by
          rw [hsettings]
          rfl
        rw [wp_bind]
        refine wp_mono (wp_writeControls _ _) ?_ ?_
        · rintro _ node' ⟨-, rfl⟩
          exact .inr ⟨fun h => h.2 hclean, .inr (congrArg (fun cs => some (Content.whole cs)) hsaved)⟩
        · rintro e node' ⟨-, -, hfile'⟩
          exact .inr ⟨fun h => h.2 hclean, .inr (by rw [hfile', ← hsaved])⟩
      · rintro e node' ⟨-, hsettings', ⟨hopen, hfile'⟩ | ⟨hopen, hwrite, hfile'⟩⟩
        · exact .inr ⟨fun h => hopen (by simpa [controls] using (hsix.mp h.1).2.2),
            .inl ⟨hfile'.trans hfile, hsettings'.trans hsettings⟩⟩
        · refine .inl ⟨⟨hsix.mpr ⟨hfour, hone, by simpa [controls] using hopen⟩, fun h => ?_⟩, hfile'⟩
          exact hwrite (by simpa [controls] using (hseven.mp h).2.2)
    · have hclean : ¬ Clean 6 node.faults := fun h => hfault (clean_one.mp (hsix.mp h).2.1)
      exact ⟨.inr ⟨fun h => hclean h.1, .inl ⟨hfile, hsettings⟩⟩,
        .inr ⟨fun h => hclean h.1, .inl ⟨hfile, hsettings⟩⟩⟩
  · rintro e node' ⟨hfour, -, hsettings', hfile'⟩
    exact .inr ⟨fun h => hfour (hsix.mp h.1).1,
      .inl ⟨hfile'.trans hfile, hsettings'.trans hsettings⟩⟩

theorem wp_doPowerLimitPrologue (request : Request V) (h : node.Recoverable settings) :
    wp (doPowerLimitPrologue limiting request) (fun _ _ => False)
      (fun _ node' =>
        CutShort node ⟨.prologue request, node.faults⟩ ∧ node'.file = some .part ∨
          ¬ CutShort node ⟨.prologue request, node.faults⟩ ∧ node'.Recoverable settings) node := by
  obtain ⟨n, hn⟩ : ∃ n, n = if node.file.isSome then 6 else 0 := ⟨_, rfl⟩
  refine wp_restore_then h hn (fun hclean => ?_) fun e node' hclean _ hnode' => ?_
  · cases request with
    | invalid => exact .inr ⟨fun ⟨⟨_, h⟩, _⟩ => (nomatch h), .inl ⟨rfl, rfl⟩⟩
    | none => exact .inr ⟨fun ⟨⟨_, h⟩, _⟩ => (nomatch h), .inl ⟨rfl, rfl⟩⟩
    | limit powerLimit =>
      have hcut : CutShort node ⟨.prologue (.limit powerLimit), node.faults⟩ ↔
          Clean 6 (node.faults.drop n) ∧ ¬ Clean 7 (node.faults.drop n) := by
        have hsix : Clean (n + 6) node.faults ↔ Clean 6 (node.faults.drop n) := by
          rw [clean_add, and_iff_right hclean]
        have hseven : Clean (n + 6 + 1) node.faults ↔ Clean 7 (node.faults.drop n) := by
          rw [Nat.add_assoc, clean_add, and_iff_right hclean]
        rw [CutShort, and_iff_right ⟨powerLimit, rfl⟩, ← hn, ← hsix, ← hseven]
        exact and_congr_right fun h => (not_clean_succ h).symm
      rw [hcut]
      exact wp_limit powerLimit rfl rfl
  · refine .inr ⟨?_, hnode'⟩
    rintro ⟨-, hbefore, -⟩
    rw [← hn, clean_add] at hbefore
    exact hclean hbefore.1

/-- **A hook** ends with an exception, and leaves the settings recoverable unless it is cut short. -/
theorem wp_hookMain (hook : Hook V) (h : node.Recoverable settings) :
    wp (hookMain limiting hook) (fun _ _ => False)
      (fun e node' =>
        (CutShort node ⟨hook, node.faults⟩ ∧ node'.file = some .part ∨
          ¬ CutShort node ⟨hook, node.faults⟩ ∧ node'.Recoverable settings) ∧
        (hook = .epilogue → e = .systemExit true →
          node'.settings = settings ∧ node'.file = none)) node := by
  unfold hookMain
  rw [wp_tryCatch]
  cases hook with
  | prologue request =>
    refine wp_mono (wp_doPowerLimitPrologue request h) (fun _ _ h => h) fun e node' hnode' => ?_
    cases e <;> exact ⟨hnode', nofun⟩
  | epilogue =>
    refine wp_mono (wp_doPowerLimitEpilogue h) (fun _ _ h => h) fun e node' ⟨hnode', hback⟩ => ?_
    have hcut : ¬ CutShort node ⟨.epilogue, node.faults⟩ := fun ⟨⟨_, h⟩, _⟩ => nomatch h
    cases e with
    | systemExit accepted => exact ⟨.inr ⟨hcut, hnode'⟩, fun _ => hback⟩
    | runtimeError => exact ⟨.inr ⟨hcut, hnode'⟩, nofun⟩
    | osError => exact ⟨.inr ⟨hcut, hnode'⟩, nofun⟩
    | jsonDecodeError => exact ⟨.inr ⟨hcut, hnode'⟩, nofun⟩
    | crash => exact ⟨.inr ⟨hcut, hnode'⟩, nofun⟩

theorem wp_hookMain_part (hook : Hook V) (hfile : node.file = some .part) :
    wp (hookMain limiting hook) (fun _ _ => False)
      (fun e node' => Ends e ∧ node'.file = some .part) node := by
  have hrestore {k : Py V Unit} : wp (do
      if (← get).file.isSome then restoreControlsFromFile
      k) (fun _ _ => False) (fun e node' => Ends e ∧ node'.file = some .part) node := by
    rw [wp_bind, wp_get, hfile]
    change wp (restoreControlsFromFile >>= fun _ => k) _ _ node
    rw [wp_bind]
    refine wp_mono (wp_restoreControlsFromFile_part hfile) (fun _ _ h => h.elim) ?_
    rintro e node' ⟨he, -, hfile'⟩
    exact ⟨he, hfile'.trans hfile⟩
  unfold hookMain
  rw [wp_tryCatch]
  refine wp_mono (Q := fun _ _ => False) (E := fun e node' => Ends e ∧ node'.file = some .part)
    ?_ (fun _ _ h => h) ?_
  · cases hook with
    | prologue request => exact hrestore
    | epilogue => exact hrestore
  · rintro e node' ⟨he, hfile'⟩
    cases e with
    | systemExit accepted => exact ⟨he, hfile'⟩
    | runtimeError => exact ⟨nofun, hfile'⟩
    | osError => exact ⟨nofun, hfile'⟩
    | jsonDecodeError => exact ⟨nofun, hfile'⟩
    | crash => exact ⟨he, hfile'⟩

theorem wp_hookMain_clean (h : node.Recoverable settings) (hfaults : node.faults = []) :
    wp (hookMain limiting (.prologue .none)) (fun _ _ => False)
      (fun e _ => e = .systemExit true) node := by
  rw [hookMain, wp_tryCatch]
  refine wp_restore_then h rfl (fun _ => rfl) fun e node' hclean _ _ => ?_
  rw [hfaults] at hclean
  exact absurd clean_nil hclean

/-! ### Runs -/

variable {event : Event V}

theorem next_of_recoverable (h : node.Recoverable settings) :
    CutShort node event ∧ (node.next limiting event).file = some .part ∨
      ¬ CutShort node event ∧ (node.next limiting event).Recoverable settings := by
  have hnext := @wp_hookMain V limiting { node with faults := event.faults } _ event.hook h
  exact wp_final.mp (wp_mono hnext (fun _ _ h => h.elim) fun _ _ h => h.1)

theorem back_of_accepts (h : node.Recoverable settings) (hhook : event.hook = .epilogue)
    (haccepts : Accepts limiting node event) :
    (node.next limiting event).settings = settings ∧ (node.next limiting event).file = none := by
  obtain ⟨node', hrun⟩ := haccepts
  have hnext := @wp_hookMain V limiting { node with faults := event.faults } _ event.hook h
  unfold wp at hnext
  rw [hrun] at hnext
  unfold Node.next final
  rw [hrun]
  exact hnext.2 hhook rfl

theorem next_of_part (hfile : node.file = some .part) :
    (node.next limiting event).file = some .part ∧ ¬ Accepts limiting node event := by
  have hnext := @wp_hookMain_part V limiting { node with faults := event.faults } event.hook hfile
  refine ⟨wp_final.mp (wp_mono hnext (fun _ _ h => h.elim) fun _ _ h => h.2), ?_⟩
  rintro ⟨node', hrun⟩
  unfold wp at hnext
  rw [hrun] at hnext
  exact hnext.1 rfl

/-- **No hook gets over a file with only a part of the settings.** -/
theorem stuck_of_part (hfile : node.file = some .part) : Stuck limiting node := by
  intro events hclean request
  clear hclean
  refine (next_of_part ?_).2
  induction events generalizing node with
  | nil => exact hfile
  | cons event events ih => exact ih (next_of_part hfile).1

theorem not_stuck (h : node.Recoverable settings) : ¬ Stuck limiting node := by
  intro hstuck
  refine hstuck [] nofun .none ?_
  have hrun := @wp_hookMain_clean V limiting { node with faults := [] } _ h rfl
  unfold wp at hrun
  unfold Accepts
  cases hm : hookMain limiting (.prologue .none) { node with faults := [] } with
  | ok a node' => rw [hm] at hrun; exact hrun.elim
  | error e node' =>
    rw [hm] at hrun
    exact ⟨node', hm.trans (congrArg (fun e => EStateM.Result.error e node') hrun)⟩

/-- **An event gives the node its settings back** exactly when it is not a prologue that is cut
short. -/
theorem givesBack_iff_of_recoverable (h : node.Recoverable settings) :
    GivesBack limiting settings node event ↔ ¬ CutShort node event := by
  obtain ⟨hcut, hfile⟩ | ⟨hcut, hnext⟩ := @next_of_recoverable V limiting _ _ _ h
  · exact ⟨fun hback => absurd (stuck_of_part hfile) hback.2.2, absurd hcut⟩
  · refine ⟨fun _ => hcut, fun _ => ⟨back_of_accepts h, fun cs hcs => ?_, not_stuck hnext⟩⟩
    obtain ⟨hnone, -⟩ | hwhole := hnext
    · rw [hnone] at hcs
      cases hcs
    · rw [hwhole] at hcs
      cases hcs
      rfl

end Lemmas

/-! ### The hooks of a node -/

/-- **The prologue and the epilogue give the node its own settings back**, in every run, exactly when
no prologue is cut short after it has opened the file. -/
theorem along_givesBack_iff (limiting : Limiting V) (settings : Control → V) (events : List (Event V)) :
    Along (GivesBack limiting settings) (Node.next limiting) ⟨settings, none, []⟩ events ↔
      Along (fun node event => ¬ CutShort node event) (Node.next limiting) ⟨settings, none, []⟩
        events := by
  refine along_iff_along (I := Node.Recoverable settings) (A := fun _ _ => True)
    (fun node event h _ => givesBack_iff_of_recoverable h) (fun node event h _ hcut => ?_) (.inl ⟨rfl, rfl⟩)
    (along_of_forall fun _ _ _ => trivial)
  exact ((next_of_recoverable h).resolve_left fun h => hcut h.1).2

/-- A node that crashes when the first prologue with a limit has opened the file. -/
theorem not_along_givesBack :
    ¬ Along (GivesBack (V := ℕ) ⟨1, 1, 1⟩ fun _ => 0) (Node.next ⟨1, 1, 1⟩) ⟨fun _ => 0, none, []⟩
      [⟨.prologue (.limit 200), [.none, .none, .none, .none, .none, .none, .crash]⟩] :=
  fun h => h.1.2.2 (stuck_of_part rfl)

end Geopm.PowerLimitHook
