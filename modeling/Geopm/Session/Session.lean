import Geopm.Double
import Geopm.Lib.Prog

/-!
# `geopmdpy.session`

One run of a `Session`: what `Session.run` does between the parsed requests and its return.

* `World` : the settings of the controls with the one saved state, what the session keeps, and
  history variables;
* `Env` and `Tick` : what the calls that leave the session do in this run, before, in and after
  the sampling loop; each of them may raise, and a termination signal may arrive in any of them;
* `Agent` : the three methods through which an agent takes part;
* `runRead`, `stop` and `run` : the code.

The requests, the formatted text of the trace and the text of the reports are left out: a report is
the list of the samples it is made of.
-/

namespace Geopm

namespace Session

/-! ### The platform -/

/-- A control at one index of a domain. -/
structure Control where
  name : String
  domain : ℤ
  domainIdx : ℤ
deriving DecidableEq

/-- The setting of each control. -/
abbrev Settings := Control → Double

/-- What writing a control makes of each control, `none` where it leaves the setting as it is: a
write to a domain sets the controls of the domains inside of it. -/
abbrev Effect := Control × Double → Control → Option Double

/-- The settings after one control has been written. -/
def Settings.write (effect : Effect) (st : Settings) (c : Control × Double) : Settings :=
  fun c' => (effect c c').getD (st c')

/-- A write sets the control itself. -/
def Effect.itself : Effect := fun c c' => if c' = c.1 then some c.2 else none

/-- An exception raised by something that the session calls. -/
inductive External where
  | runtimeError
  | terminationExit (signum : ℤ)
  | other
deriving DecidableEq

/-- An exception raised by a statement of the session itself. -/
inductive OwnError where
  | runtimeError (msg : String)
  | valueError
  | overflowError
  | zeroDivisionError
deriving DecidableEq

/-- An exception that a method of the session raises. -/
inductive Raised where
  | external (e : External)
  | own (e : OwnError)
deriving DecidableEq

/-- The state of a run; `α` is the state of the agent. -/
structure World (α : Type) where
  /-- What a write does, which no call changes. -/
  effect : Effect
  /-- The current settings of the platform. -/
  settings : Settings
  /-- What `pio.save_control` has saved. -/
  saved : Option Settings
  /-- What `pio.adjust` has been called with. -/
  adjusted : List (Control × Double)
  /-- What `pio.sample` returns. -/
  samples : ℕ → Double
  /-- The members of the agent. -/
  agent : α
  /-- `Session._adjust_par`: `none` is the empty list of the constructor. -/
  adjustPar : Option (List (Control × Double))
  /-- The samples that the collector was updated with since its last reset. -/
  updates : List ℕ
  /-- The reports that have been written. -/
  reports : List (List ℕ)
  /-- History variable: the samples that have been taken. -/
  taken : ℕ
  /-- History variable: what each `pio.save_control` of this run has saved. -/
  saves : List Settings
  /-- History variable: what was saved just before the control configuration was written. -/
  snapshot : Option Settings
  /-- History variable: `pio.restore_control` has written the saved state back. -/
  restored : Bool
  /-- History variable: `run_end` of the agent has been called. -/
  runEndCalled : Bool
  /-- History variable: the command has been launched. -/
  launched : Bool
  /-- History variable: the process group of the command has been signalled until it ended. -/
  killed : Bool

/-- A method of the session, or of the agent. -/
abbrev Py (α : Type) := EStateM Raised (World α)

/-- What an external call does: it returns or raises. -/
def attempt {α : Type} : Option External → Py α Unit
  | none => return
  | some e => throw (.external e)

namespace Pio

variable {α : Type}

/-- `pio.save_control`. -/
def saveControl (fails : Option External) : Py α Unit := do
  attempt fails
  modify fun w => { w with saved := some w.settings, saves := w.saves ++ [w.settings] }

/-- `pio.restore_control`, which raises when nothing has been saved; when it fails otherwise, any
of the controls may have been written. -/
def restoreControl (fails : Option (External × Settings)) : Py α Unit := do
  match (← get).saved, fails with
  | none, _ => throw (.external .runtimeError)
  | some st, none => modify fun w => { w with settings := st, restored := true }
  | some _, some (e, st) => do
    modify fun w => { w with settings := st }
    throw (.external e)

/-- `pio.adjust`, which does not take NaN. -/
def adjust (c : Control) (setting : Double) : Py α Unit := do
  if setting.isNan then throw (.external .runtimeError)
  else modify fun w => { w with adjusted := w.adjusted ++ [(c, setting)] }

/-- `pio.write_batch`; when it fails, only the first `n` of the adjusted controls have been
written. -/
def writeBatch : Option (External × ℕ) → Py α Unit
  | none =>
    modify fun w => { w with settings := w.adjusted.foldl (Settings.write w.effect) w.settings }
  | some (e, n) => do
    modify fun w =>
      { w with settings := (w.adjusted.take n).foldl (Settings.write w.effect) w.settings }
    throw (.external e)

/-- `pio.write_control`. -/
def writeControl (c : Control) (setting : Double) (fails : Option External) : Py α Unit := do
  attempt fails
  modify fun w => { w with settings := w.settings.write w.effect (c, setting) }

/-- `pio.read_batch`. -/
def readBatch (fails : Option External) (samples : ℕ → Double) : Py α Unit := do
  attempt fails
  modify fun w => { w with samples := samples }

end Pio

/-! ### The arguments and the environment -/

/-- The arguments of `Session.run`. -/
structure Args where
  runTime : Double
  period : Double
  /-- The double `run_time / period`. -/
  quotient : Double
  pid : Option ℤ
  reportSamples : Option ℤ
  launch : List String
  /-- There is a `ready_fd`. -/
  readyFd : Bool
  /-- There is an `out_stream`. -/
  outStream : Bool
  /-- A report is written. -/
  doReport : Bool
  /-- There is a `control_config`. -/
  controlConfig : Bool
  /-- A quotient of numbers that are not negative is not negative. -/
  nonneg : runTime.lt (.num 0) = false → period.lt (.num 0) = false →
    period.eq (.num 0) = false → quotient.lt (.num 0) = false

/-- What the calls of one iteration of the sampling loop do. -/
structure Tick where
  /-- The wait until the iteration begins. -/
  sleepFails : Option External
  /-- The time of the run has passed when the iteration begins. -/
  timeUp : Bool
  readFails : Option External
  samples : ℕ → Double
  /-- What the agent writes in `update_loop`, and whether it raises. -/
  writes : List (Control × Double)
  updateFails : Option External
  /-- `pio.write_batch` of the agent. -/
  batchFails : Option (External × ℕ)
  /-- Formatting a line of the trace and writing it. -/
  traceFails : Option External
  statsFails : Option External
  /-- Whether the watched process is active. -/
  active : Except External Bool
  reportFails : Option External
  resetFails : Option External

/-- What the calls that leave the session do. -/
structure Env where
  /-- What comes before the `try`: checking the requests, writing the header, and creating the
  collector and the report stream. -/
  prepareFails : Option External
  /-- `write.parse_batch` of the control configuration. -/
  config : Except External (List (Control × Double))
  /-- Whether the agent saves the controls in `run_begin`, what it writes then, and whether it
  raises. -/
  beginSaves : Bool
  beginWrites : List (Control × Double)
  beginFails : Option External
  /-- The handles that `pio.push_signal` returns. -/
  handles : Except External (List ℕ)
  adjustFails : Option External
  saveFails : Option External
  writeFails : Option (External × ℕ)
  firstFails : Option External
  firstSamples : ℕ → Double
  /-- The wait and the second `pio.read_batch` when a first sample is NaN. -/
  purgeFails : Option External
  purgeSamples : ℕ → Double
  popenFails : Option External
  readyFails : Option External
  /-- The iterations of the sampling loop.  When they are used up before the loop ends, a
  termination signal arrives. -/
  ticks : List Tick
  signum : ℤ
  flushFails : Option External
  finalReportFails : Option External
  endFails : Option External
  restoreFails : Option (External × Settings)
  /-- The launched command, or another process of its group, is running when the run ends. -/
  leaderRuns : Bool
  othersRun : Bool
  /-- The others ignore the signal that ends the command. -/
  othersIgnore : Bool
  /-- A command that has ended stays ended. -/
  ended : ∀ t ∈ ticks, t.active = .ok false → leaderRuns = false

/-- The methods of an agent that `Session.run` calls. -/
structure Agent (α : Type) where
  runBegin : Env → Py α Unit
  updateLoop : Tick → Py α Unit
  runEnd : Env → Py α Unit

/-! ### The code -/

section Code

variable {α : Type}

/-- `Session.check_read_args`. -/
def checkReadArgs (args : Args) : Except OwnError Unit :=
  if Double.lt (.num 86400) args.period then
    .error (.runtimeError "Specified a period greater than 24 hours")
  else if args.period.lt (.num 0) || args.runTime.lt (.num 0) then
    .error (.runtimeError "Specified a negative run time or period")
  else if args.reportSamples.any (· < 0) then
    .error (.runtimeError "Specified report samples is negative")
  else if args.pid.isSome && !args.launch.isEmpty then
    .error (.runtimeError ("Cannot use pid option when launching a command: \"" ++
      " ".intercalate args.launch ++ "\""))
  else .ok ()

/-- `math.ceil`. -/
def ceil : Double → Except OwnError ℤ
  | .nan => .error .valueError
  | .infinity _ => .error .overflowError
  | .negZero => .ok 0
  | .num x => .ok ⌈x⌉

/-- A process is watched. -/
def Args.watches (args : Args) : Bool := args.pid.isSome || !args.launch.isEmpty

/-- `num_period`; `none` is an unbounded loop.  As it is not negative, and neither is the period,
the constructor of `TimedLoop` does not raise. -/
def numPeriod (args : Args) : Except OwnError (Option ℤ) :=
  if args.watches || args.readyFd then .ok none
  else if args.period.eq (.num 0) then .ok (some 0)
  else (ceil args.quotient).map some

/-- Return or raise. -/
def ofExcept {ε β : Type} (f : ε → Raised) : Except ε β → Py α β
  | .ok b => return b
  | .error e => throw (f e)

/-- `_ReportStream.write`; the `update_count` of the collector, which comes first, may raise too. -/
def writeReport (fails : Option External) : Py α Unit := do
  attempt fails
  modify fun w =>
    if w.updates = [] then w else { w with reports := w.reports ++ [w.updates] }

/-- `Collector.update`. -/
def updateStats (idx : ℕ) (fails : Option External) : Py α Unit := do
  attempt fails
  modify fun w => { w with updates := w.updates ++ [idx] }

/-- `Collector.reset`. -/
def resetStats (fails : Option External) : Py α Unit := do
  attempt fails
  modify fun w => { w with updates := [] }

/-- A report is due after the sample `idx`. -/
def reportDue (args : Args) (idx : ℕ) : Except OwnError Bool :=
  match args.reportSamples with
  | none => .ok false
  | some n =>
    if args.doReport && idx ≠ 0 then
      if n = 0 then .error .zeroDivisionError else .ok (decide ((idx : ℤ) % n = 0))
    else .ok false

/-- The samples of the iteration `idx`. -/
def takeSample (idx : ℕ) (t : Tick) : Py α Unit := do
  (if idx ≠ 0 then Pio.readBatch t.readFails t.samples else pure ())
  modify fun w => { w with taken := w.taken + 1 }

/-- The end of an iteration whose watched process is active. -/
def closeReport (args : Args) (idx : ℕ) (t : Tick) : Py α Unit := do
  let due ← ofExcept .own (reportDue args idx)
  if due then
    writeReport t.reportFails
    resetStats t.resetFails
  else return

/-- One iteration of the sampling loop; `false` is a `break`. -/
def iteration (agent : Agent α) (args : Args) (idx : ℕ) (t : Tick) : Py α Bool := do
  takeSample idx t
  agent.updateLoop t
  (if args.outStream then attempt t.traceFails else pure ())
  (if args.doReport then updateStats idx t.statsFails else pure ())
  let active ← (if args.watches then ofExcept .external t.active else pure true)
  if active then do
    closeReport args idx t
    return true
  else return false

/-- `TimedLoop`: whether the iteration `idx` is the last one. -/
def isLast (num : Option ℤ) (idx : ℕ) (t : Tick) : Bool :=
  num == some 0 || (num.isSome && idx ≠ 0 && t.timeUp)

/-- The sampling loop from the iteration `idx` on. -/
def samplingLoop (agent : Agent α) (args : Args) (num : Option ℤ) (signum : ℤ) :
    ℕ → List Tick → Py α Unit
  | _, [] => throw (.external (.terminationExit signum))
  | idx, t :: ts => do
    (if idx ≠ 0 then attempt t.sleepFails else pure ())
    let goesOn ← iteration agent args idx t
    if goesOn && !isLast num idx t then samplingLoop agent args num signum (idx + 1) ts
    else return

/-- The control configuration is written, and the controls are saved before. -/
def writeConfig (env : Env) : Py α Unit := do
  match (← get).adjustPar with
  | none => return
  | some par => do
    attempt env.adjustFails
    modify fun w => { w with adjusted := w.adjusted ++ par }
    Pio.saveControl env.saveFails
    modify fun w => { w with snapshot := some w.settings }
    Pio.writeBatch env.writeFails

/-- The first `pio.read_batch`, and the second one when a sample is NaN. -/
def firstRead (env : Env) (handles : List ℕ) : Py α Unit := do
  Pio.readBatch env.firstFails env.firstSamples
  let w ← get
  if handles.any fun h => (w.samples h).isNan then Pio.readBatch env.purgeFails env.purgeSamples
  else return

/-- The command is launched, and the parent of a daemon is told that it runs. -/
def launchAndTell (args : Args) (env : Env) : Py α Unit := do
  (if args.launch ≠ [] then do
      attempt env.popenFails
      modify fun w => { w with launched := true }
    else pure ())
  if args.readyFd then attempt env.readyFails else return

/-- `Session.run_read`. -/
def runRead (agent : Agent α) (args : Args) (env : Env) : Py α Unit := do
  let num ← ofExcept .own (numPeriod args)
  let handles ← ofExcept .external env.handles
  writeConfig env
  firstRead env handles
  launchAndTell args env
  samplingLoop agent args num env.signum 0 env.ticks

/-- `_SessionHandler.kill_subp`.  `os.killpg` does not take `None`; its `TypeError` is caught. -/
def killSubp (env : Env) (signum : Option ℤ) : Py α Unit := do
  if (← get).launched && env.leaderRuns then
    match signum with
    | none => return
    | some _ => modify fun w => { w with killed := !(env.othersRun && env.othersIgnore) }
  else return

/-- `_SessionHandler.stop`. -/
def stop (agent : Agent α) (args : Args) (env : Env) (signum : Option ℤ) : Py α Unit := do
  (if args.outStream then attempt env.flushFails else pure ())
  (if args.doReport then writeReport env.finalReportFails else pure ())
  modify fun w => { w with runEndCalled := true }
  agent.runEnd env
  tryCatch (Pio.restoreControl env.restoreFails) fun
    | .external .runtimeError => return
    | e => throw e
  killSubp env signum

/-- The control configuration is read. -/
def readConfig (args : Args) (env : Env) : Py α Unit := do
  if args.controlConfig then
    let par ← ofExcept .external env.config
    modify fun w => { w with adjustPar := some par }
  else return

/-- The statements of `Session.run` under the `try`. -/
def runBody (agent : Agent α) (args : Args) (env : Env) : Py α Unit := do
  readConfig args env
  agent.runBegin env
  runRead agent args env

/-- `Session.run`. -/
def run (agent : Agent α) (args : Args) (env : Env) : Py α Unit := do
  ofExcept .own (checkReadArgs args)
  attempt env.prepareFails
  tryFinally (runBody agent args env) (stop agent args env none)

end Code

/-- There is something to write as the control configuration. -/
def configured (args : Args) (par : Option (List (Control × Double))) : Bool :=
  args.controlConfig || par.isSome

/-- The state in which a run begins. -/
def World.start {α : Type} (effect : Effect) (settings : Settings) (saved : Option Settings)
    (adjustPar : Option (List (Control × Double))) (agent : α) : World α where
  effect := effect
  settings := settings
  saved := saved
  adjusted := []
  samples _ := .nan
  agent := agent
  adjustPar := adjustPar
  updates := []
  reports := []
  taken := 0
  saves := []
  snapshot := none
  restored := false
  runEndCalled := false
  launched := false
  killed := false

end Session

end Geopm
